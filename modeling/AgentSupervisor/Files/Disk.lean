import AgentSupervisor.Files.Error
import AgentSupervisor.Files.Path
import AgentSupervisor.Text.Utf8

/-!
# Files and directories

A disk is a map from places to what stands there. A place is the row of names that leads to it
from the root. Every operation walks that row first: each place on the way has to be a
directory, and no name may be longer than `maxName` bytes. These are the only ways to fail: once a
file has been found or made, it gives all its bytes and takes all that it is given. A disk that is
full, or that cannot confirm what has been written, is not one of these.

* `read`, `write`, `append`, `remove`, `rename`, `makeDirs`, `list` : what they say on success;
* `at?_put` : what a change at one place does to another one.
-/

namespace AgentSupervisor

/-- The names that lead from the root to a place. -/
abbrev Place := List String

/-- What stands at a place. -/
inductive Entry where
  | file (content : Bytes)
  | directory
  /-- a socket with its permissions -/
  | socket (mode : Nat)
  /-- a link to another place -/
  | link (target : Place)
  deriving Repr, DecidableEq

/-- A disk. The root is always a directory. -/
structure Disk where
  entries : List (Place × Entry) := []
  deriving Repr, DecidableEq

namespace Place

/-- Follow one name: two dots go up. -/
def follow (p : Place) (name : List Char) : Place :=
  if name = ['.', '.'] then p.dropLast else p ++ [String.ofList name]

/-- The place of a path, seen from a directory. -/
def ofPath (from_ : Place) (path : String) : Place :=
  (Path.names path.toList).foldl follow (if Path.isAbsolute path then [] else from_)

end Place

namespace Disk

/-- The longest name of a file in bytes. -/
def maxName : Nat := 255

/-! ## Places -/

/-- What stands at a place. -/
def at? (d : Disk) (p : Place) : Option Entry :=
  if p = [] then some .directory else d.entries.lookup p

/-- The disk without what stands at a place. -/
def erase (d : Disk) (p : Place) : Disk := ⟨d.entries.filter fun e => e.1 != p⟩

/-- The disk with something else at a place. -/
def put (d : Disk) (p : Place) (e : Entry) : Disk := ⟨(p, e) :: (d.erase p).entries⟩

theorem lookup_filter_ne {K V : Type} [BEq K] [LawfulBEq K] {p q : K} (h : q ≠ p)
    (es : List (K × V)) :
    (es.filter fun e => e.1 != p).lookup q = es.lookup q := by
  induction es with
  | nil => rfl
  | cons e es ih =>
    obtain ⟨k, v⟩ := e
    by_cases hk : k = p
    · subst hk
      simp only [List.filter_cons, bne_self_eq_false, List.lookup_cons]
      have hq : (q == k) = false := by simpa using h
      simp [hq, ih]
    · have hb : (k != p) = true := by simpa using hk
      simp only [List.filter_cons, hb, if_true, List.lookup_cons, ih]

theorem at?_put (d : Disk) (p q : Place) (e : Entry) (hp : p ≠ []) :
    (d.put p e).at? q = if q = p then some e else d.at? q := by
  by_cases hq : q = p
  · subst hq; simp [at?, put, hp]
  · by_cases hn : q = []
    · simp [at?, hn, Ne.symm hp]
    · have hb : (q == p) = false := by simpa using hq
      simp only [at?, hn, hq, put, erase, List.lookup_cons, hb, if_false]
      exact lookup_filter_ne hq _

/-! ## Walking -/

/-- Walk on from a place by names, and say what stands at the end, if anything. -/
def walk (d : Disk) (at_ : Place) : List String → Except IoError (Option Entry)
  | [] => .ok (d.at? at_)
  | n :: ns =>
    match d.at? at_ with
    | none => .error .notFound
    | some .directory =>
      if maxName < n.utf8ByteSize then .error .nameTooLong else d.walk (at_ ++ [n]) ns
    | some _ => .error .notADirectory

/-- What stands at a place, if the way there exists. -/
def find (d : Disk) (p : Place) : Except IoError (Option Entry) := d.walk [] p

/-- Is there a regular file? -/
def isFile (d : Disk) (p : Place) : Bool :=
  match d.find p with
  | .ok (some (.file _)) => true
  | _ => false

/-- Is there anything? -/
def isThere (d : Disk) (p : Place) : Bool :=
  match d.find p with
  | .ok (some _) => true
  | _ => false

/-! ## Operations -/

/-- The content of a file. -/
def read (d : Disk) (p : Place) : Except IoError Bytes := do
  match ← d.find p with
  | none => .error .notFound
  | some (.file bs) => .ok bs
  | some _ => .error .isADirectory

/-- The content of a file that has to be text. -/
def readText (d : Disk) (p : Place) : Except IoError (List Char) := do
  match Utf8.decode? (← d.read p) with
  | some cs => .ok cs
  | none => .error .notUtf8

/-- Change the content of a file, which is made if it is not there. -/
def modify (d : Disk) (p : Place) (f : Bytes → Bytes) : Except IoError Disk := do
  match ← d.find p with
  | none => .ok (d.put p (.file (f [])))
  | some (.file bs) => .ok (d.put p (.file (f bs)))
  | some _ => .error .isADirectory

/-- Give a file new content. -/
def write (d : Disk) (p : Place) (bs : Bytes) : Except IoError Disk := d.modify p fun _ => bs

/-- Add to the content of a file. -/
def append (d : Disk) (p : Place) (bs : Bytes) : Except IoError Disk := d.modify p (· ++ bs)

/-- Make sure that a file is there. -/
def touch (d : Disk) (p : Place) : Except IoError Disk := d.modify p id

/-- Remove a file, a socket or a link. -/
def remove (d : Disk) (p : Place) : Except IoError Disk := do
  match ← d.find p with
  | none => .error .notFound
  | some .directory => .error .isADirectory
  | some _ => .ok (d.erase p)

/-- Put a file in place of another one. -/
def rename (d : Disk) (p q : Place) : Except IoError Disk := do
  match ← d.find p, ← d.find q with
  | none, _ => .error .notFound
  | some _, some .directory => .error .isADirectory
  | some e, _ => .ok ((d.erase p).put q e)

/-- Make the directories that lead on from a place. -/
def makeDirsFrom (d : Disk) (at_ : Place) : List String → Except IoError Disk
  | [] => .ok d
  | n :: ns =>
    if maxName < n.utf8ByteSize then .error .nameTooLong
    else match d.at? (at_ ++ [n]) with
      | none => (d.put (at_ ++ [n]) .directory).makeDirsFrom (at_ ++ [n]) ns
      | some .directory => d.makeDirsFrom (at_ ++ [n]) ns
      | some _ => .error (if ns.isEmpty then .alreadyExists else .notADirectory)

/-- Make a directory and all directories above it. -/
def makeDirs (d : Disk) (p : Place) : Except IoError Disk := d.makeDirsFrom [] p

/-- Put an entry at a place in place of what is there, with the directories above it. -/
def plant (d : Disk) (p : Place) (e : Entry) : Disk :=
  match (d.erase p).makeDirs p.dropLast with
  | .ok d => d.put p e
  | .error _ => d.put p e

/-- The name that an entry has in a directory, if it is in there. -/
def nameIn (dir : Place) (e : Place × Entry) : Option String :=
  match e.1.getLast? with
  | some n => if e.1.dropLast = dir then some n else none
  | none => none

/-- The names in a directory. -/
def list (d : Disk) (p : Place) : Except IoError (List String) := do
  match ← d.find p with
  | none => .error .notFound
  | some .directory => .ok (d.entries.filterMap (nameIn p))
  | some _ => .error .notADirectory

end Disk

end AgentSupervisor
