import GraphDoc.Tool.Run
/-! # A machine held in memory

The tool reaches files and standard input through a `Host`. `Machine` is a model of the system
a run happens on, kept in memory so that the tool can be run, and reasoned about, without a
disk: the working directory with its regular files, the directories of a usual Linux system
around it with their links and the device files under `/dev`, the files a run writes
elsewhere, and the standard streams. The working directory is a fresh directory under `/tmp`,
whose name nothing else refers to.

A path is resolved as the system resolves it. It starts at the working directory, or at the
root when it starts with `/`, and is cut at each `/`; empty pieces and `.` stay where they are
and `..` climbs, the root being its own parent. Every piece but the last must lead through a
directory: a piece naming a file or a device is refused as not a directory, and one naming
nothing as not found. The working directory holds no directories, and the system directories
hold only what the system puts there until a run writes more. Of the system's own files the
model knows the beginning that every usual system shares, which is all a read of them gives. A
piece longer than a
name may be is refused when it is looked up, and so is a whole path longer than a path may be.
The last piece is the file read or written, and a `/` after it asks for a directory. Each
refusal carries the system's own text, so a run on a machine reports what a run on the system
would. -/
namespace GraphDoc

namespace Tool

/-- Why a file cannot be read or written. -/
inductive Fault where
  | notFound
  | ioError
  | noDevice
  | permissionDenied
  | notDirectory
  | isDirectory
  | invalidArgument
  | noSpace
  | nameTooLong
  | nulByte
deriving DecidableEq, Repr

/-- The system's text for a fault. -/
def Fault.text : Fault → String
  | .notFound => "No such file or directory (os error 2)"
  | .ioError => "Input/output error (os error 5)"
  | .noDevice => "No such device or address (os error 6)"
  | .permissionDenied => "Permission denied (os error 13)"
  | .notDirectory => "Not a directory (os error 20)"
  | .isDirectory => "Is a directory (os error 21)"
  | .invalidArgument => "Invalid argument (os error 22)"
  | .noSpace => "No space left on device (os error 28)"
  | .nameTooLong => "File name too long (os error 36)"
  | .nulByte => "file name contained an unexpected NUL byte"

/-- The longest name of an entry of a directory, in bytes. -/
def nameMax : Nat := 255

/-- The length, in bytes, from which a path is too long. -/
def pathMax : Nat := 4096

/-- The device files under `/dev`, and the standard streams under `/dev/fd` and
`/proc/self/fd`. -/
inductive Device where
  /-- Reads as empty and swallows what is written. -/
  | null
  /-- Endless zeros; swallows what is written. -/
  | zero
  /-- Endless zeros; has no room for what is written. -/
  | full
  /-- Endless random bytes; swallows what is written. -/
  | random
  /-- The controlling terminal, which a run without one cannot open. -/
  | terminal
  /-- The run's standard input. -/
  | input
  /-- The run's standard output. -/
  | output
  /-- The run's standard error. -/
  | errors
deriving DecidableEq, Repr

/-- The standard stream of a descriptor number, as listed under `/proc/self/fd`. -/
def Device.ofDescriptor : String → Option Device
  | "0" => some .input
  | "1" => some .output
  | "2" => some .errors
  | _ => none

/-- The device file of a name under `/dev`, if there is one. -/
def Device.named : String → Option Device
  | "null" => some .null
  | "zero" => some .zero
  | "full" => some .full
  | "random" | "urandom" => some .random
  | "tty" => some .terminal
  | "stdin" => some .input
  | "stdout" => some .output
  | "stderr" => some .errors
  | _ => none

/-- A directory a walk can stand in: the working directory, or a directory of the system by its
pieces from the root. -/
inductive Spot where
  | work
  | system (path : List String)
deriving DecidableEq, Repr

/-- The directories of a usual Linux system, by their pieces from the root. -/
def systemDirectories : List (List String) :=
  ["/", "/boot", "/dev", "/dev/mqueue", "/dev/pts", "/dev/shm", "/etc", "/home", "/media",
   "/mnt", "/opt", "/proc", "/proc/1", "/proc/self", "/proc/self/fd", "/proc/sys", "/root",
   "/run", "/srv", "/sys",
   "/sys/block", "/sys/bus", "/sys/class", "/sys/dev", "/sys/devices", "/sys/firmware",
   "/sys/fs", "/sys/kernel", "/sys/module", "/sys/power", "/tmp", "/usr", "/usr/bin",
   "/usr/games", "/usr/include", "/usr/lib", "/usr/lib64", "/usr/libexec", "/usr/local",
   "/usr/local/bin", "/usr/local/lib", "/usr/sbin", "/usr/share", "/usr/src", "/var",
   "/var/backups", "/var/cache", "/var/lib", "/var/local", "/var/log", "/var/mail", "/var/opt",
   "/var/spool", "/var/tmp"].map fun path => (path.splitOn "/").filter (· != "")

/-- The links of the system that lead to directories, by their pieces from the root, with the
directory each leads to. A walk through a link stands in its target, so `..` after it climbs
from there: `/bin/..` is `/usr`. -/
def directoryLinks : List (List String × Spot) :=
  [(["bin"], .system ["usr", "bin"]), (["lib"], .system ["usr", "lib"]),
   (["lib64"], .system ["usr", "lib64"]), (["sbin"], .system ["usr", "sbin"]),
   (["var", "run"], .system ["run"]), (["dev", "fd"], .system ["proc", "self", "fd"]),
   (["proc", "thread-self"], .system ["proc", "self"]),
   (["proc", "self", "cwd"], .work), (["proc", "self", "root"], .system [])]

/-- What writing to a regular file of the system does: the file takes the new contents, the
kernel swallows them, or it refuses them. -/
inductive Writing where
  | replaces
  | swallows
  | refused (fault : Fault)

/-- A regular file of the system: its pieces from the root, the beginning of its contents that
is the same on every usual system, why it cannot be read if it cannot, and what writing to it
does. -/
structure SystemFile where
  path : List String
  known : String := ""
  unreadable : Option Fault := none
  writing : Writing := .replaces

/-- The regular files of a usual Linux system that a run may name. The account files start
with the root account; the process's own name is the tool's; the kernel's reports under
`/proc` refuse to be written, with an error that depends on where they stand. -/
def systemFiles : List SystemFile :=
  [{ path := ["etc", "passwd"], known := "root:x:0:0:root:/root:" },
   { path := ["etc", "group"], known := "root:x:0:" },
   { path := ["etc", "shadow"], known := "root:" },
   { path := ["etc", "gshadow"], known := "root:" },
   { path := ["proc", "self", "comm"], known := "vlx\n", writing := .swallows },
   { path := ["proc", "self", "sched"], writing := .swallows },
   { path := ["proc", "self", "mem"], unreadable := some .ioError, writing := .refused .ioError },
   { path := ["proc", "mounts"], writing := .refused .invalidArgument }] ++
  (["bash.bashrc", "environment", "fstab", "hostname", "hosts", "issue", "ld.so.cache",
    "ld.so.conf", "login.defs", "machine-id", "nsswitch.conf", "os-release", "profile",
    "protocols", "resolv.conf", "services", "shells"].map fun name =>
      ({ path := ["etc", name] } : SystemFile)) ++
  (["bash", "cat", "env", "ls", "sh"].map fun name =>
      ({ path := ["usr", "bin", name] } : SystemFile)) ++
  (["cmdline", "cpuinfo", "devices", "diskstats", "filesystems", "interrupts", "loadavg",
    "meminfo", "partitions", "stat", "swaps", "uptime", "version", "vmstat"].map fun name =>
      ({ path := ["proc", name], writing := .refused .ioError } : SystemFile)) ++
  (["auxv", "cgroup", "cmdline", "environ", "io", "limits", "maps", "mountinfo", "mounts",
    "oom_adj", "oom_score", "oom_score_adj", "stat", "statm", "status", "wchan"].map fun name =>
      ({ path := ["proc", "self", name], writing := .refused .invalidArgument } : SystemFile))

/-- The directory `..` leads to: `/tmp` from the working directory, and the root from itself. -/
def Spot.up : Spot → Spot
  | .work => .system ["tmp"]
  | .system p => .system p.dropLast

/-- Why a new file cannot be created in a directory: the kernel's own trees refuse. -/
def Spot.creation : Spot → Option Fault
  | .system ("proc" :: _) => some .notFound
  | .system ("sys" :: _) => some .permissionDenied
  | _ => none

/-- What a name in a directory stands for. -/
inductive Entry where
  | directory (s : Spot)
  | device (d : Device)
  | file (bytes : ByteArray)
  | systemFile (f : SystemFile)
  | absent

/-- The system a run happens on: the regular files of the working directory by name, the files
written elsewhere by directory and name, standard input, and what was written to standard
output and standard error through their device files. -/
structure Machine where
  files : List (String × ByteArray) := []
  elsewhere : List ((Spot × String) × ByteArray) := []
  input : ByteArray := .empty
  shown : ByteArray := .empty
  reported : ByteArray := .empty

namespace Machine

/-- The contents of the file named `name` in the working directory, if there is one. -/
def find? (m : Machine) (name : String) : Option ByteArray :=
  m.files.lookup name

/-- What `name` stands for in directory `dir`. -/
def entry (m : Machine) (dir : Spot) (name : String) : Entry :=
  let kept : Entry := match m.elsewhere.lookup (dir, name) with
    | some bytes => .file bytes
    | none => .absent
  match dir with
  | .work =>
    match m.find? name with
    | some bytes => .file bytes
    | none => .absent
  | .system p =>
    match directoryLinks.lookup (p ++ [name]) with
    | some target => .directory target
    | none =>
      if systemDirectories.contains (p ++ [name]) then .directory (.system (p ++ [name]))
      else
        let device :=
          if p == ["dev"] then Device.named name
          else if p == ["proc", "self", "fd"] then Device.ofDescriptor name
          else none
        match device, kept with
        | some d, _ => .device d
        | none, .absent =>
          match systemFiles.find? (·.path == p ++ [name]) with
          | some f => .systemFile f
          | none => .absent
        | none, written => written

/-- The machine with the file `name` of directory `dir` holding `bytes`, in place of any file
of that name there. -/
def keep (m : Machine) (dir : Spot) (name : String) (bytes : ByteArray) : Machine :=
  match dir with
  | .work => { m with files := (name, bytes) :: m.files.filter (·.1 != name) }
  | _ => { m with elsewhere := ((dir, name), bytes) :: m.elsewhere.filter (·.1 != (dir, name)) }

/-- Walk from `dir` through the pieces of a path that must each lead to a directory: where the
walk ends. -/
def throughDirectories (m : Machine) : Spot → List String → Except Fault Spot
  | dir, [] => .ok dir
  | dir, piece :: rest =>
    if piece == "." then m.throughDirectories dir rest
    else if piece == ".." then m.throughDirectories dir.up rest
    else if piece.utf8ByteSize > nameMax then .error .nameTooLong
    else match m.entry dir piece with
      | .directory next => m.throughDirectories next rest
      | .absent => .error .notFound
      | _ => .error .notDirectory

/-- What a path names: a directory reached by `.` or `..` or by the root alone, or a name in a
directory. -/
inductive Target where
  | directory
  | named (dir : Spot) (name : String)

/-- What a path names, and whether a `/` follows its last piece. The pieces before the last
have been walked. -/
def resolve (m : Machine) (path : String) : Except Fault (Target × Bool) :=
  if path.contains (Char.ofNat 0) then .error .nulByte
  else if path.utf8ByteSize ≥ pathMax then .error .nameTooLong
  else if path.isEmpty then .error .notFound
  else
    let pieces := (path.splitOn "/").filter (· != "")
    let start : Spot := if path.startsWith "/" then .system [] else .work
    match pieces.getLast? with
    | none => .ok (.directory, true)
    | some last => do
      let dir ← m.throughDirectories start pieces.dropLast
      if last == "." || last == ".." then .ok (.directory, true)
      else .ok (.named dir last, path.endsWith "/")

/-- Read a device to its end. Standard input gives the run's input and a missing terminal
refuses to open. The others give nothing: the null device is empty, the endless ones cannot be
read to an end, and the standard outputs hold nothing to read back. -/
def readDevice (m : Machine) : Device → Except Fault ByteArray
  | .input => .ok m.input
  | .terminal => .error .noDevice
  | _ => .ok .empty

/-- Read the file a path names. A directory opens but cannot be read. -/
def read (m : Machine) (path : String) : Except Fault ByteArray := do
  match ← m.resolve path with
  | (.directory, _) => .error .isDirectory
  | (.named dir name, slash) =>
    if name.utf8ByteSize > nameMax then .error .nameTooLong
    else match m.entry dir name with
      | .absent => .error .notFound
      | .directory _ => .error .isDirectory
      | .file bytes => if slash then .error .notDirectory else .ok bytes
      | .device d => if slash then .error .notDirectory else m.readDevice d
      | .systemFile f =>
        if slash then .error .notDirectory
        else match f.unreadable with
          | some fault => .error fault
          | none => .ok f.known.toUTF8

/-- Write bytes to a device. The standard outputs take them, a full device has no room for any,
a missing terminal refuses to open, and the others swallow them. Writing nothing needs no room. -/
def writeDevice (m : Machine) (d : Device) (bytes : ByteArray) : Except Fault Machine :=
  match d with
  | .output => .ok { m with shown := m.shown ++ bytes }
  | .errors => .ok { m with reported := m.reported ++ bytes }
  | .full => if bytes.isEmpty then .ok m else .error .noSpace
  | .terminal => .error .noDevice
  | _ => .ok m

/-- Write the file a path names, creating it or replacing what it held. A path that asks for a
directory cannot be created as a file, whatever its last piece names. -/
def write (m : Machine) (path : String) (bytes : ByteArray) : Except Fault Machine := do
  match ← m.resolve path with
  | (.directory, _) => .error .isDirectory
  | (.named dir name, slash) =>
    if slash then .error .isDirectory
    else if name.utf8ByteSize > nameMax then .error .nameTooLong
    else match m.entry dir name with
      | .directory _ => .error .isDirectory
      | .device d => m.writeDevice d bytes
      | .file _ => .ok (m.keep dir name bytes)
      | .systemFile f =>
        match f.writing with
        | .replaces => .ok (m.keep dir name bytes)
        | .swallows => .ok m
        | .refused fault => .error fault
      | .absent =>
        match dir.creation with
        | some fault => .error fault
        | none => .ok (m.keep dir name bytes)

/-- The tool's surroundings on a machine. -/
def host : Host (StateM Machine) where
  getFile path := do
    return ((← get).read path).mapError Fault.text
  putFile path bytes := do
    match (← get).write path bytes with
    | .ok m => set m; return .ok ()
    | .error e => return .error e.text
  getInput := do
    return (← get).input

/-- Run an invocation on the machine: its outcome and the machine after it. What the run wrote
to standard output or standard error through their device files comes before what it printed
there itself, for a command writes its file last and prints nothing once a write succeeded. -/
def run (m : Machine) (i : Invocation) : Outcome × Machine :=
  let (o, after) := (i.execute host).run { m with shown := .empty, reported := .empty }
  ({ o with stdout := after.shown ++ o.stdout,
            stderr := Utf8.decodeLossy after.reported.toList ++ o.stderr }, after)

end Machine

end Tool

end GraphDoc
