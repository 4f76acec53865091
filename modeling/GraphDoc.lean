import GraphDoc.Ieee.Binary
import GraphDoc.Ieee.Round
import GraphDoc.Ieee.Decimal
import GraphDoc.Ieee.Shortest
import GraphDoc.Text.Utf8
import GraphDoc.Text.Token
import GraphDoc.Text.Scan
import GraphDoc.Wire.Varint
import GraphDoc.Wire.Chunk
import GraphDoc.Error
import GraphDoc.Tree
import GraphDoc.Text.Parse
import GraphDoc.Graph
import GraphDoc.Graph.Shape
import GraphDoc.Graph.Outline
import GraphDoc.Graph.Borrow
import GraphDoc.Usage
import GraphDoc.Text.Write
import GraphDoc.Wire.Write
import GraphDoc.Wire.Read
import GraphDoc.Link
import GraphDoc.Stats
import GraphDoc.Json.Value
import GraphDoc.Json.View
import GraphDoc.Element
import GraphDoc.Graph.Edit
import GraphDoc.Graph.Live
import GraphDoc.Session.Basic
import GraphDoc.Session.Export
import GraphDoc.Session.Import
import GraphDoc.Session.Load
import GraphDoc.Session.Script
import GraphDoc.Tool.Args
import GraphDoc.Tool.Run
import GraphDoc.Tool.Machine
import GraphDoc.Main
import GraphDoc.Proofs.Walk
import GraphDoc.Proofs.Survivors
import GraphDoc.Proofs.Link
import GraphDoc.Proofs.MapAgain
import GraphDoc.Proofs.Utf8
import GraphDoc.Proofs.Varint
import GraphDoc.Proofs.Plant
import GraphDoc.Proofs.WireRead
import GraphDoc.Proofs.ReadBounds
import GraphDoc.Proofs.BinaryRoundTrip
import GraphDoc.Proofs.Numeral
import GraphDoc.Proofs.ParseTokens
import GraphDoc.Proofs.TextRoundTrip
import GraphDoc.Proofs.Declared
import GraphDoc.Proofs.Flatten
import GraphDoc.Proofs.BinaryFixpoint
import GraphDoc.Proofs.SelfDelimiting
import GraphDoc.Proofs.RealTokens
import GraphDoc.Proofs.Grammar
import GraphDoc.Proofs.TextFixpoint
import GraphDoc.Proofs.ObjectWalk
import GraphDoc.Proofs.SessionRun
import GraphDoc.Proofs.SessionExport
import GraphDoc.Proofs.SavedDocument
import GraphDoc.Proofs.Walkers
import GraphDoc.Proofs.LoadedDocument
import GraphDoc.Proofs.Rebuild
import GraphDoc.Proofs.Places
import GraphDoc.Proofs.SharedRoundTrip
import GraphDoc.Proofs.SessionImport
import GraphDoc.Proofs.ObjectRoundTrip
import GraphDoc.Proofs.HandlerScripts
import GraphDoc.Proofs.StickyFailure
import GraphDoc.Proofs.NumberTokens
import GraphDoc.Proofs.KeptLinks
import GraphDoc.Proofs.SpelledText
import GraphDoc.Proofs.SessionCaches
import GraphDoc.Proofs.VarintRead
import GraphDoc.Proofs.Lexemes
import GraphDoc.Proofs.JsonObjects
import GraphDoc.Proofs.StatsCounts
import GraphDoc.Proofs.TokenLines
