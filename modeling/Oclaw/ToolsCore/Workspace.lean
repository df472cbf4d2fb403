import Oclaw.Lib.TreeWalk

/-!
# The workspace tool

`WorkspaceTool` of `crates/tools-core/src/tool.rs`: the check of a path, and the actions
that read, write and append. The check looks at the target if it exists, else at its parent
if that exists, and else at the text of the path.
-/

namespace Oclaw.ToolsCore

open Oclaw.Lib

/-! ## §1  The tool -/

/-- The variants of `ToolError` that the tool returns. -/
inductive ToolError : Type where
  | executionFailed (msg : String)
  | invalidInput (msg : String)

inductive WorkspaceReply : Type where
  | read (path content : String) (size : ℕ)
  | write (path : String) (bytesWritten : ℕ)
  | append (path : String) (bytesAppended : ℕ)

inductive WorkspaceAction : Type where
  | read
  | write
  | append

structure WorkspaceTool : Type where
  workspaceRoot : String

namespace WorkspaceTool

/-- `p.canonicalize().unwrap_or_else(|_| p.to_path_buf())` -/
def canonicalOr (t : Tree) (cwd : Place) (p : Path) : Path :=
  match t.canonicalize cwd p with
  | .ok place => place.path
  | .error _ => p

def target (ws : WorkspaceTool) (rel : String) : Path :=
  (Path.ofText ws.workspaceRoot).join (.ofText rel)

/-- The path that is compared with the root. -/
def checkPath (t : Tree) (cwd : Place) (target : Path) : Path :=
  if t.pathExists cwd target then canonicalOr t cwd target
  else
    match target.parent with
    | some parent => (canonicalOr t cwd parent).join (.ofName target.fileName)
    | none => target

def resolvePath (ws : WorkspaceTool) (t : Tree) (cwd : Place) (rel : String) :
    Except ToolError Path :=
  let canonicalRoot := canonicalOr t cwd (.ofText ws.workspaceRoot)
  let target := ws.target rel
  if (checkPath t cwd target).startsWith canonicalRoot then .ok target
  else .error (.invalidInput "Path escapes workspace directory")

def actionRead (ws : WorkspaceTool) (d : Disk) (cwd : Place) (path : Option String) :
    Except ToolError WorkspaceReply × Disk :=
  match path with
  | none => (.error (.invalidInput "path required for read"), d)
  | some rel =>
      match ws.resolvePath d.tree cwd rel with
      | .error e => (.error e, d)
      | .ok full =>
          match d.readToString cwd full with
          | (.error e, d) => (.error (.executionFailed ("Read failed: " ++ e.text)), d)
          | (.ok content, d) => (.ok (.read rel content (byteLen content.toList)), d)

/-- What the actions that store a content have in common. -/
def actionStore (name failed : String) (change : List UInt8 → List UInt8 → List UInt8)
    (touch : Place → Touch) (reply : String → ℕ → WorkspaceReply) (ws : WorkspaceTool)
    (d : Disk) (cwd : Place) (path content : Option String) :
    Except ToolError WorkspaceReply × Disk :=
  match path with
  | none => (.error (.invalidInput ("path required for " ++ name)), d)
  | some rel =>
      match content with
      | none => (.error (.invalidInput ("content required for " ++ name)), d)
      | some content =>
          match ws.resolvePath d.tree cwd rel with
          | .error e => (.error e, d)
          | .ok full =>
              match d.createParent cwd full with
              | (.error e, d) => (.error (.executionFailed ("mkdir failed: " ++ e.text)), d)
              | (.ok (), d) =>
                  match d.openCreate cwd full (change (utf8 content.toList)) touch with
                  | (.error e, d) => (.error (.executionFailed (failed ++ e.text)), d)
                  | (.ok (), d) => (.ok (reply rel (byteLen content.toList)), d)

/-- `fs::write` replaces what is there. -/
def actionWrite : WorkspaceTool → Disk → Place → Option String → Option String →
    Except ToolError WorkspaceReply × Disk :=
  actionStore "write" "Write failed: " (fun bytes _ => bytes) .written .write

/-- The file is opened with `create(true).append(true)`. -/
def actionAppend : WorkspaceTool → Disk → Place → Option String → Option String →
    Except ToolError WorkspaceReply × Disk :=
  actionStore "append" "Open failed: " (fun bytes old => old ++ bytes) .appended .append

def perform (ws : WorkspaceTool) (d : Disk) (cwd : Place) (action : WorkspaceAction)
    (path content : Option String) : Except ToolError WorkspaceReply × Disk :=
  match action with
  | .read => ws.actionRead d cwd path
  | .write => ws.actionWrite d cwd path content
  | .append => ws.actionAppend d cwd path content

end WorkspaceTool

/-! ## §2  What the check decides -/

open WorkspaceTool

variable {ws : WorkspaceTool} {t : Tree} {d : Disk} {cwd root place : Place}
variable {rel : String} {target : Path}

theorem startsWith_path : place.path.startsWith root.path = true ↔ root <:+ place := by
  simp only [Path.startsWith, Place.path, decide_true, Bool.true_and, List.isPrefixOf_iff_prefix]
  rw [List.prefix_map_iff_of_injective fun _ _ h => Component.normal.inj h, List.reverse_prefix]

theorem path_join_ofName (place : Place) (name : String) :
    place.path.join (.ofName (some name)) = Place.path (name :: place) := by
  simp [Path.join, Place.path, Path.ofName, Path.isEmpty]

/-- What an accepted path is: the target of the call, with a place or a text that starts
with the root. -/
theorem resolvePath_eq_ok (hroot : t.canonicalize cwd (.ofText ws.workspaceRoot) = .ok root)
    (h : ws.resolvePath t cwd rel = .ok target) :
    target = ws.target rel ∧ (checkPath t cwd target).startsWith root.path = true := by
  simp only [resolvePath, canonicalOr, hroot] at h
  split at h
  · cases h
    exact ⟨rfl, ‹_›⟩
  · cases h

theorem pathExists_iff : t.pathExists cwd target = true ↔
    ∃ place, t.canonicalize cwd target = .ok place := by
  unfold Tree.pathExists
  cases t.canonicalize cwd target with
  | error e => simp [Except.isOk, Except.toBool]
  | ok place => simp [Except.isOk, Except.toBool]

/-- A target that exists and is accepted is in the workspace. -/
theorem suffix_of_exists (hcheck : (checkPath t cwd target).startsWith root.path = true)
    (h : t.canonicalize cwd target = .ok place) : root <:+ place := by
  rw [checkPath, if_pos (pathExists_iff.mpr ⟨place, h⟩), canonicalOr, h] at hcheck
  exact startsWith_path.mp hcheck

/-- A new name in a directory that exists, and is accepted, is in the workspace. -/
theorem suffix_of_parent {parent : Path} {dir : Place} {name : String}
    (hcheck : (checkPath t cwd target).startsWith root.path = true)
    (hnot : t.pathExists cwd target = false) (hparent : target.parent = some parent)
    (hdir : t.canonicalize cwd parent = .ok dir) (hname : target.fileName = some name) :
    root <:+ name :: dir := by
  rw [checkPath, hnot, hparent] at hcheck
  simp only [Bool.false_eq_true, if_false, canonicalOr, hdir, hname, path_join_ofName] at hcheck
  exact startsWith_path.mp hcheck

/-! ## §3  What is touched -/

/-- The target starts in a directory. -/
theorem entry_start (hroot : t.canonicalize cwd (.ofText ws.workspaceRoot) = .ok root) :
    t.entry ((ws.target rel).start cwd) = some .dir := by
  obtain ⟨-, hempty, k, hwalk⟩ := Tree.canonicalize_eq_ok.mp hroot
  generalize hp : Path.ofText ws.workspaceRoot = p at hempty hwalk
  have hstart : t.entry (p.start cwd) = some .dir := by
    unfold Path.start at hwalk ⊢
    split
    · exact t.root
    · rename_i habsolute
      rcases hcomponents : p.components with _ | ⟨c, cs⟩
      · simp [Path.isEmpty, habsolute, hcomponents] at hempty
      · by_contra hdir
        rw [Path.steps, hcomponents, List.cons_append, if_neg habsolute, Tree.walk_cons,
          if_neg hdir] at hwalk
        cases hwalk
  rw [target, hp, Path.join]
  cases habsolute : (Path.ofText rel).absolute with
  | true =>
      rw [if_pos (Or.inl rfl), Path.start, if_pos habsolute]
      exact t.root
  | false =>
      rw [if_neg (by simp [hempty])]
      exact hstart

/-- An action that stores touches what its target reaches, if the check accepts it. -/
theorem mem_touched_actionStore {name failed : String}
    {change : List UInt8 → List UInt8 → List UInt8} {touch : Place → Touch}
    {reply : String → ℕ → WorkspaceReply} {content : String}
    (htouch : ∀ place, (touch place).place = place)
    (hroot : t.canonicalize cwd (.ofText ws.workspaceRoot) = .ok root) (x : Place) :
    x ∈ (actionStore name failed change touch reply ws ⟨t, []⟩ cwd (some rel)
        (some content)).2.touched.map Touch.place ↔
      ∃ full, ws.resolvePath t cwd rel = .ok full ∧ x ∈ t.reached cwd full := by
  unfold actionStore
  simp only
  cases hresolve : ws.resolvePath t cwd rel with
  | error e => simp
  | ok full =>
      have hstart : t.entry (full.start cwd) = some .dir := by
        rw [(resolvePath_eq_ok hroot hresolve).1]
        exact entry_start hroot
      rcases hmade : (Disk.mk t []).createParent cwd full with ⟨e, d'⟩
      have hopen := @Disk.touched_open_with_parents ⟨t, []⟩ cwd full
        (change (utf8 content.toList)) touch htouch hstart d' e hmade
      rw [List.map_nil, List.nil_append] at hopen
      simp only [Except.ok.injEq, exists_eq_left']
      rw [← hopen, hmade]
      cases e with
      | error e => rfl
      | ok _ =>
          simp only
          rcases d'.openCreate cwd full (change (utf8 content.toList)) touch with ⟨_ | _, _⟩ <;> rfl

/-- What is read is the target, if the check accepts it. -/
theorem canonicalize_of_mem_touched_actionRead {touch : Touch}
    (h : touch ∈ (ws.actionRead ⟨t, []⟩ cwd (some rel)).2.touched) :
    ∃ full, ws.resolvePath t cwd rel = .ok full ∧ t.canonicalize cwd full = .ok touch.place := by
  unfold actionRead at h
  simp only at h
  cases hresolve : ws.resolvePath t cwd rel with
  | error e => simp [hresolve] at h
  | ok full =>
      rw [hresolve] at h
      have hread : touch ∈ ((Disk.mk t []).readToString cwd full).2.touched := by
        simp only at h
        split at h <;> simp_all
      rcases Disk.mem_touched_readToString hread with hmem | hplace
      · cases hmem
      · exact ⟨full, rfl, hplace⟩

/-! ## §4  The workspace is left where the check does not see it -/

/-- The target exists, or its directory exists and has nothing of its name; else nothing
may be made or opened outside while the path is followed and its missing directories are
made. -/
def Contained (t : Tree) (cwd root : Place) (target : Path) : Prop :=
  t.pathExists cwd target = true ∨
  (∃ parent dir, target.parent = some parent ∧ t.canonicalize cwd parent = .ok dir ∧
    ∀ name, target.fileName = some name → t.entry (name :: dir) = none) ∨
  ∀ place ∈ t.reached cwd target, root <:+ place

theorem suffix_of_contained (hcheck : (checkPath t cwd target).startsWith root.path = true)
    (hstart : t.entry (target.start cwd) = some .dir) (h : Contained t cwd root target) :
    ∀ place ∈ t.reached cwd target, root <:+ place := by
  intro place hplace
  rcases h with hexists | ⟨parent, dir, hparent, hdir, hnew⟩ | h
  · obtain ⟨found, hfound⟩ := pathExists_iff.mp hexists
    rw [Tree.eq_of_mem_reached hfound hplace]
    exact suffix_of_exists hcheck hfound
  · cases hexists : t.pathExists cwd target with
    | true =>
        obtain ⟨found, hfound⟩ := pathExists_iff.mp hexists
        rw [Tree.eq_of_mem_reached hfound hplace]
        exact suffix_of_exists hcheck hfound
    | false =>
        obtain ⟨name, hname, rfl⟩ :=
          Tree.eq_of_mem_reached_of_parent hparent hdir hstart hnew hplace
        exact suffix_of_parent hcheck hexists hparent hdir hname
  · exact h place hplace

/-- Whether an action stores something is up to its path and its content. -/
def WorkspaceAction.Stores (action : WorkspaceAction) (path content : Option String)
    (rel : String) : Prop :=
  action ≠ .read ∧ path = some rel ∧ content ≠ none

/-- A workspace beside another directory. -/
def besideEtc : Tree := (Tree.empty.put [] "ws" .dir).put [] "etc" .dir

/-- A link that leads nowhere is written through. -/
example : ((WorkspaceTool.mk "/ws").perform
    ⟨besideEtc.put ["ws"] "link" (.link (.ofText "/etc/new")), []⟩ [] .write (some "link")
    (some "a")).2.touched = [.written ["new", "etc"]] := by
  decide +kernel

end Oclaw.ToolsCore
