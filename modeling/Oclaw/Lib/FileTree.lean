import Oclaw.Lib.Utf8
import Oclaw.Lib.Text

/-!
# A tree of directories, files and symbolic links

Paths as `std::path` takes them apart, the walk with which the operating system follows
one, and the operations of `std::fs` over it. Rights, quotas and limits on the lengths of
names are not part of the tree.
-/

namespace Oclaw.Lib

/-! ## §1  Paths -/

/-- `std::path::Component`, without the root. -/
inductive Component : Type where
  | curDir
  | parentDir
  | normal (name : String)
deriving DecidableEq

/-- A path text: `components` are those of `Path::components`, and `slash` says that
something empty follows them, a separator or a dot, which asks for a directory. -/
structure Path : Type where
  absolute : Bool
  components : List Component
  slash : Bool
deriving DecidableEq

namespace Path

def component (piece : String) : Component :=
  if piece = "" ∨ piece = "." then .curDir else if piece = ".." then .parentDir
  else .normal piece

/-- Separators may be repeated, and a dot counts at the start of a relative path only. -/
def ofText (text : String) : Path :=
  let pieces := splitOnChar '/' text
  let absolute := pieces.length ≥ 2 ∧ pieces.head? = some ""
  let named := (pieces.map component).filter (· ≠ .curDir)
  { absolute := absolute
    components := if pieces.head? = some "." then .curDir :: named else named
    slash := pieces.getLast?.map component = some .curDir }

/-- The empty text. -/
def isEmpty (p : Path) : Bool := !p.absolute && p.components = []

/-- `Path::join` -/
def join (p q : Path) : Path :=
  if q.absolute ∨ p.isEmpty then q
  else
    let named := q.components.filter (· ≠ .curDir)
    { absolute := p.absolute
      components := p.components ++ named
      slash := if named = [] then true else q.slash }

/-- `Path::parent` -/
def parent (p : Path) : Option Path :=
  if p.components = [] then none else some ⟨p.absolute, p.components.dropLast, false⟩

/-- `Path::file_name` -/
def fileName (p : Path) : Option String :=
  match p.components.getLast? with
  | some (.normal name) => some name
  | _ => none

/-- The path of one name, or the empty path. -/
def ofName (name : Option String) : Path := ⟨false, (name.map .normal).toList, false⟩

/-- `Path::starts_with` -/
def startsWith (p q : Path) : Bool :=
  p.absolute = q.absolute && q.components.isPrefixOf p.components

/-- No call takes a text with a zero byte. -/
def hasNul (p : Path) : Bool :=
  p.components.any (fun c =>
    match c with
    | .normal name => name.toList.any (· = Char.ofNat 0)
    | _ => false)

/-- What is followed after the components. -/
def tail (p : Path) : List Component := if p.slash then [.curDir] else []

def steps (p : Path) : List Component := p.components ++ p.tail

end Path

/-! ## §2  Trees -/

/-- A place in the tree: the names on the way to the root. -/
abbrev Place : Type := List String

/-- The canonical path of a place. -/
def Place.path (place : Place) : Path := ⟨true, place.reverse.map .normal, false⟩

/-- Where a path starts. -/
def Path.start (p : Path) (dir : Place) : Place := if p.absolute then [] else dir

inductive Node : Type where
  | dir
  | file (content : List UInt8)
  | link (target : Path)
deriving DecidableEq

structure Tree : Type where
  entry : Place → Option Node
  root : entry [] = some .dir
  closed : ∀ {name place}, entry (name :: place) ≠ none → entry place = some .dir

/-- `std::io::Error`, as far as the tree gives rise to it. -/
inductive FsError : Type where
  | notFound
  | notADirectory
  | isADirectory
  | alreadyExists
  | linkLoop
  | nulByte
  | notUtf8
deriving DecidableEq

def FsError.text : FsError → String
  | .notFound => "No such file or directory (os error 2)"
  | .notADirectory => "Not a directory (os error 20)"
  | .isADirectory => "Is a directory (os error 21)"
  | .alreadyExists => "File exists (os error 17)"
  | .linkLoop => "Too many levels of symbolic links (os error 40)"
  | .nulByte => "file name contained an unexpected NUL byte"
  | .notUtf8 => "stream did not contain valid UTF-8"

/-- Where a walk ends: at an entry, or in a directory that lacks the last name. -/
inductive Found : Type where
  | entry (place : Place)
  | missing (dir : Place) (name : String)

namespace Tree

/-- The tree with nothing but its root. -/
def empty : Tree where
  entry place := if place = [] then some .dir else none
  root := rfl
  closed := by
    intro name place h
    simp at h

/-- Put a node into a directory, in the place of whatever is no directory itself. -/
def put (t : Tree) (dir : Place) (name : String) (node : Node) : Tree :=
  if h : t.entry dir = some .dir ∧ t.entry (name :: dir) ≠ some .dir then
    { entry := fun place => if place = name :: dir then some node else t.entry place
      root := by
        rw [if_neg (by simp), t.root]
      closed := by
        intro name' place hentry
        by_cases hsame : name' :: place = name :: dir
        · cases hsame
          rw [if_neg (by simp)]
          exact h.1
        · rw [if_neg hsame] at hentry
          have hplace := t.closed hentry
          rw [if_neg]
          · exact hplace
          · rintro rfl
            exact h.2 hplace }
  else t

/-- Links that one walk may follow. -/
def maxLinks : ℕ := 40

/-- Follow a path with `k` links left, with `follow` as what happens after a link. -/
def walkWith (t : Tree) (k : ℕ)
    (follow : Place → List Component → Except FsError (Found × ℕ)) :
    Place → List Component → Except FsError (Found × ℕ)
  | place, [] => .ok (.entry place, k)
  | place, c :: cs =>
      if t.entry place = some .dir then
        match c with
        | .curDir => t.walkWith k follow place cs
        | .parentDir => t.walkWith k follow place.tail cs
        | .normal name =>
            match t.entry (name :: place) with
            | none => if cs = [] then .ok (.missing place name, k) else .error .notFound
            | some (.link target) => follow (target.start place) (target.steps ++ cs)
            | some _ => t.walkWith k follow (name :: place) cs
      else .error .notADirectory

/-- Follow a path; the number of links that are left is returned with the end. -/
def walk (t : Tree) : ℕ → Place → List Component → Except FsError (Found × ℕ)
  | 0 => t.walkWith 0 (fun _ _ => .error .linkLoop)
  | k + 1 => t.walkWith (k + 1) (t.walk k)

def lookup (t : Tree) (cwd : Place) (p : Path) : Except FsError Found :=
  if p.hasNul then .error .nulByte
  else if p.isEmpty then .error .notFound
  else (t.walk maxLinks (p.start cwd) p.steps).map Prod.fst

/-- `Path::canonicalize` -/
def canonicalize (t : Tree) (cwd : Place) (p : Path) : Except FsError Place :=
  match t.lookup cwd p with
  | .ok (.entry place) => .ok place
  | .ok (.missing _ _) => .error .notFound
  | .error e => .error e

/-- `Path::exists` -/
def pathExists (t : Tree) (cwd : Place) (p : Path) : Bool := (t.canonicalize cwd p).isOk

/-- `Path::is_dir` -/
def isDir (t : Tree) (cwd : Place) (p : Path) : Bool :=
  match t.canonicalize cwd p with
  | .ok place => t.entry place = some .dir
  | .error _ => false

end Tree

/-! ## §3  Reading and writing -/

/-- What has been done to the place of a file or a directory. -/
inductive Touch : Type where
  | made (place : Place)
  | read (place : Place)
  | written (place : Place)
  | appended (place : Place)
deriving DecidableEq

def Touch.place : Touch → Place
  | .made place | .read place | .written place | .appended place => place

/-- A tree, and what has been touched in it. -/
structure Disk : Type where
  tree : Tree
  touched : List Touch

namespace Disk

/-- `mkdir`, which does not follow a link at the end of the path. The components before
the last one are innermost first. -/
def mkdir (d : Disk) (cwd : Place) (absolute : Bool) (up : List Component) (c : Component) :
    Except FsError Unit × Disk :=
  let p : Path := ⟨absolute, (c :: up).reverse, false⟩
  if p.hasNul then (.error .nulByte, d)
  else
    match d.tree.walk Tree.maxLinks (p.start cwd) up.reverse with
    | .error e => (.error e, d)
    | .ok (.missing _ _, _) => (.error .notFound, d)
    | .ok (.entry dir, _) =>
        if d.tree.entry dir = some .dir then
          match c with
          | .normal name =>
              if d.tree.entry (name :: dir) = none then
                (.ok (), ⟨d.tree.put dir name .dir, d.touched ++ [.made (name :: dir)]⟩)
              else (.error .alreadyExists, d)
          | _ => (.error .alreadyExists, d)
        else (.error .notADirectory, d)

/-- `fs::create_dir_all`: make the directory, or first its parent if that is missing. -/
def createDirAllFrom (d : Disk) (cwd : Place) (absolute : Bool) :
    List Component → Except FsError Unit × Disk
  | [] => (.ok (), d)
  | c :: up =>
      let p : Path := ⟨absolute, (c :: up).reverse, false⟩
      match d.mkdir cwd absolute up c with
      | (.ok (), d) => (.ok (), d)
      | (.error .notFound, _) =>
          match d.createDirAllFrom cwd absolute up with
          | (.error e, d) => (.error e, d)
          | (.ok (), d) =>
              match d.mkdir cwd absolute up c with
              | (.ok (), d) => (.ok (), d)
              | (.error e, d) => if d.tree.isDir cwd p then (.ok (), d) else (.error e, d)
      | (.error e, d) => if d.tree.isDir cwd p then (.ok (), d) else (.error e, d)

def createDirAll (d : Disk) (cwd : Place) (p : Path) : Except FsError Unit × Disk :=
  d.createDirAllFrom cwd p.absolute p.components.reverse

/-- Make the parent of a path, if it has one. -/
def createParent (d : Disk) (cwd : Place) (p : Path) : Except FsError Unit × Disk :=
  match p.parent with
  | some parent => d.createDirAll cwd parent
  | none => (.ok (), d)

/-- The content of a file; `none` where there is none. -/
def content (d : Disk) (place : Place) : Option (List UInt8) :=
  match d.tree.entry place with
  | some (.file bytes) => some bytes
  | _ => none

/-- `fs::read_to_string` -/
def readToString (d : Disk) (cwd : Place) (p : Path) : Except FsError String × Disk :=
  match d.tree.canonicalize cwd p with
  | .error e => (.error e, d)
  | .ok place =>
      match d.content place with
      | none => (.error .isADirectory, d)
      | some bytes =>
          let d := { d with touched := d.touched ++ [.read place] }
          let text := fromUtf8Lossy bytes
          if utf8 text = bytes then (.ok (String.ofList text), d) else (.error .notUtf8, d)

/-- Open a file, create it if it is missing, and change its content. -/
def openCreate (d : Disk) (cwd : Place) (p : Path) (change : List UInt8 → List UInt8)
    (touch : Place → Touch) : Except FsError Unit × Disk :=
  match d.tree.lookup cwd p with
  -- with a slash at its end, no path is good for a new file
  | .error e => (.error (if p.slash then .isADirectory else e), d)
  | .ok (.missing dir name) =>
      (.ok (), ⟨d.tree.put dir name (.file (change [])), d.touched ++ [touch (name :: dir)]⟩)
  | .ok (.entry place) =>
      match d.content place, place with
      | some bytes, name :: dir =>
          (.ok (), ⟨d.tree.put dir name (.file (change bytes)), d.touched ++ [touch place]⟩)
      | _, _ => (.error .isADirectory, d)

end Disk

end Oclaw.Lib
