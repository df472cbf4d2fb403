import Oclaw.Lib.FileTree

/-!
# Following a path through a tree

The walk of the operating system composes, and finds again what it found when more is
there. So `create_dir_all`, which starts at the end of a path, makes the places that a
walk from the left misses.
-/

namespace Oclaw.Lib

/-! ## §1  The walk -/

namespace Tree

variable {t t' : Tree} {k k' : ℕ} {dir dir' place : Place} {name : String} {node : Node}
variable {c : Component} {cs cs' : List Component} {e : FsError} {f : Found}

theorem put_entry (hdir : t.entry dir = some .dir) (hnot : t.entry (name :: dir) ≠ some .dir)
    (place : Place) :
    (t.put dir name node).entry place =
      if place = name :: dir then some node else t.entry place := by
  rw [put, dif_pos ⟨hdir, hnot⟩]

/-- Everything stays where it is. -/
def Extends (t t' : Tree) : Prop := ∀ place, t.entry place ≠ none → t'.entry place = t.entry place

theorem Extends.refl (t : Tree) : t.Extends t := fun _ _ => rfl

theorem Extends.trans {t'' : Tree} (h : t.Extends t') (h' : t'.Extends t'') : t.Extends t'' := by
  intro place hplace
  have hsame := h place hplace
  rw [h' place (by rwa [hsame]), hsame]

theorem extends_put (hdir : t.entry dir = some .dir) (hnone : t.entry (name :: dir) = none) :
    t.Extends (t.put dir name node) := by
  intro place hplace
  rw [put_entry hdir (by rw [hnone]; simp), if_neg]
  rintro rfl
  exact hplace hnone

@[simp] theorem walk_nil (t : Tree) (k : ℕ) (place : Place) :
    t.walk k place [] = .ok (.entry place, k) := by
  cases k <;> rfl

/-- One component of a walk. -/
theorem walk_cons (t : Tree) (k : ℕ) (place : Place) (c : Component) (cs : List Component) :
    t.walk k place (c :: cs) =
      if t.entry place = some .dir then
        match c with
        | .curDir => t.walk k place cs
        | .parentDir => t.walk k place.tail cs
        | .normal name =>
            match t.entry (name :: place) with
            | none => if cs = [] then .ok (.missing place name, k) else .error .notFound
            | some (.link target) =>
                match k with
                | 0 => .error .linkLoop
                | k + 1 => t.walk k (target.start place) (target.steps ++ cs)
            | some _ => t.walk k (name :: place) cs
      else .error .notADirectory := by
  cases k <;> rfl

/-- Induction over a walk: over the components, and over the links that are left. -/
theorem walk_induct {P : ℕ → Place → List Component → Prop}
    (nil : ∀ k place, P k place [])
    (cons : ∀ k place c cs, (∀ place', P k place' cs) →
      (∀ k' target, k = k' + 1 → ∀ place', P k' place' (Path.steps target ++ cs)) →
      P k place (c :: cs)) :
    ∀ k place cs, P k place cs := by
  intro k
  induction k with
  | zero =>
      intro place cs
      induction cs generalizing place with
      | nil => exact nil 0 place
      | cons c cs ih => exact cons 0 place c cs ih (fun k' _ h => by omega)
  | succ k ihk =>
      intro place cs
      induction cs generalizing place with
      | nil => exact nil (k + 1) place
      | cons c cs ih =>
          refine cons (k + 1) place c cs ih ?_
          rintro k' target hk place'
          cases hk
          exact ihk place' _

/-- A walk can be taken in two parts; what the first part does not find is an error then. -/
theorem walk_append (h : cs' ≠ []) : ∀ k place cs,
    t.walk k place (cs ++ cs') =
      match t.walk k place cs with
      | .ok (.entry place', k') => t.walk k' place' cs'
      | .ok (.missing _ _, _) => .error .notFound
      | .error e => .error e := by
  refine walk_induct ?_ ?_
  · intro k place
    rw [walk_nil, List.nil_append]
  · intro k place c cs ih ihlink
    rw [List.cons_append, walk_cons, walk_cons]
    split
    · cases c with
      | curDir => exact ih place
      | parentDir => exact ih place.tail
      | normal name =>
          simp only
          cases hentry : t.entry (name :: place) with
          | none =>
              rw [if_neg (by simp [h])]
              by_cases hcs : cs = []
              · rw [if_pos hcs]
              · rw [if_neg hcs]
          | some node =>
              cases node with
              | dir => exact ih _
              | file content => exact ih _
              | link target =>
                  cases k with
                  | zero => rfl
                  | succ k =>
                      simp only
                      rw [← List.append_assoc]
                      exact ihlink k target rfl _
    · rfl

theorem walk_trans (h : t.walk k place cs = .ok (.entry dir, k')) (cs' : List Component) :
    t.walk k place (cs ++ cs') = t.walk k' dir cs' := by
  by_cases hcs' : cs' = []
  · rw [hcs', List.append_nil, walk_nil, h]
  · rw [walk_append hcs', h]

/-- What is found is found again when more is there. -/
theorem Extends.walk (h : t.Extends t') : ∀ k place cs {place' k'},
    t.walk k place cs = .ok (.entry place', k') → t'.walk k place cs = .ok (.entry place', k') := by
  refine walk_induct ?_ ?_
  · intro k place place' k' hwalk
    rwa [walk_nil] at hwalk ⊢
  · intro k place c cs ih ihlink place' k' hwalk
    rw [walk_cons] at hwalk
    split at hwalk
    · rename_i hdir
      rw [walk_cons, if_pos (by rw [h place (by rw [hdir]; simp), hdir])]
      cases c with
      | curDir => exact ih place hwalk
      | parentDir => exact ih place.tail hwalk
      | normal name =>
          simp only at hwalk ⊢
          cases hentry : t.entry (name :: place) with
          | none =>
              rw [hentry] at hwalk
              simp only at hwalk
              split at hwalk <;> cases hwalk
          | some node =>
              rw [h _ (by rw [hentry]; simp), hentry]
              rw [hentry] at hwalk
              cases node with
              | dir => exact ih _ hwalk
              | file content => exact ih _ hwalk
              | link target =>
                  cases k with
                  | zero => cases hwalk
                  | succ k => exact ihlink k target rfl _ hwalk
    · cases hwalk

theorem walk_append_eq_entry (h : t.walk k place (cs ++ cs') = .ok (.entry dir', k')) :
    ∃ dir k₁, t.walk k place cs = .ok (.entry dir, k₁) ∧
      t.walk k₁ dir cs' = .ok (.entry dir', k') := by
  by_cases hcs' : cs' = []
  · rw [hcs', List.append_nil] at h
    exact ⟨dir', k', h, by rw [hcs', walk_nil]⟩
  · rw [walk_append hcs'] at h
    split at h
    · exact ⟨_, _, ‹_›, h⟩
    · cases h
    · cases h

/-- A walk ends in a directory only if it starts in one. -/
theorem dir_of_walk (h : t.walk k place cs = .ok (.entry dir, k'))
    (hdir : t.entry dir = some .dir) : t.entry place = some .dir := by
  cases cs with
  | nil =>
      rw [walk_nil] at h
      cases h
      exact hdir
  | cons c cs =>
      rw [walk_cons] at h
      by_contra hplace
      rw [if_neg hplace] at h
      cases h

/-! ## §2  Making what is missing

`along` follows a path from the left and makes every directory that it misses. -/

/-- One component, with the place that is made for it, if any. -/
def enter (t : Tree) (k : ℕ) (dir : Place) (c : Component) :
    Option (List Place × Tree × Place × ℕ) :=
  let existing := match t.walk k dir [c] with
    | .ok (.entry place, k') => if t.entry place = some .dir then some ([], t, place, k') else none
    | _ => none
  match c with
  | .normal name =>
      if t.entry (name :: dir) = none then
        some ([name :: dir], t.put dir name .dir, name :: dir, k)
      else existing
  | _ => existing

/-- The places that are made, and where the path leads then, if it leads anywhere. -/
def along (t : Tree) (k : ℕ) (dir : Place) :
    List Component → List Place × Option (Tree × Place × ℕ)
  | [] => ([], some (t, dir, k))
  | c :: cs =>
      match t.enter k dir c with
      | none => ([], none)
      | some (made, t, place, k) => (made ++ (t.along k place cs).1, (t.along k place cs).2)

theorem along_append (t : Tree) (k : ℕ) (dir : Place) (cs cs' : List Component) :
    t.along k dir (cs ++ cs') =
      match t.along k dir cs with
      | (made, none) => (made, none)
      | (made, some (t, place, k)) =>
          (made ++ (t.along k place cs').1, (t.along k place cs').2) := by
  induction cs generalizing t k dir with
  | nil => simp [along]
  | cons c cs ih =>
      rw [List.cons_append, along, along]
      cases t.enter k dir c with
      | none => rfl
      | some r =>
          obtain ⟨made, t₁, dir₁, k₁⟩ := r
          simp only [ih]
          rcases t₁.along k₁ dir₁ cs with ⟨made', _ | ⟨t₂, dir₂, k₂⟩⟩
          · rfl
          · simp

theorem enter_of_walk (h : t.walk k dir [c] = .ok (.entry place, k'))
    (hplace : t.entry place = some .dir) : t.enter k dir c = some ([], t, place, k') := by
  have hdir := dir_of_walk h hplace
  unfold enter
  rw [h]
  simp only [hplace, if_true]
  cases c with
  | normal name =>
      simp only
      rw [if_neg]
      intro hnone
      rw [walk_cons, if_pos hdir] at h
      simp [hnone] at h
  | _ => rfl

/-- Nothing is entered where there is something, but no directory. -/
theorem enter_of_stuck (hsome : ∀ name, c = .normal name → t.entry (name :: dir) ≠ none)
    (h : ∀ place k', t.walk k dir [c] = .ok (.entry place, k') → t.entry place ≠ some .dir) :
    t.enter k dir c = none := by
  have hexisting : (match t.walk k dir [c] with
      | .ok (.entry place, k') =>
          if t.entry place = some .dir then some (([] : List Place), t, place, k') else none
      | _ => none) = none := by
    split
    · exact if_neg (h _ _ ‹_›)
    · rfl
  unfold enter
  cases c with
  | curDir => exact hexisting
  | parentDir => exact hexisting
  | normal name =>
      simp only
      rw [if_neg (hsome name rfl)]
      exact hexisting

/-- A name that is missing is what a walk of that name misses. -/
theorem walk_missing (hdir : t.entry dir = some .dir) (hnone : t.entry (name :: dir) = none) :
    t.walk k dir [.normal name] = .ok (.missing dir name, k) := by
  rw [walk_cons, if_pos hdir]
  simp [hnone]

theorem enter_spec {made : List Place} (hdir : t.entry dir = some .dir)
    (h : t.enter k dir c = some (made, t', place, k')) :
    t.Extends t' ∧ t'.entry place = some .dir ∧
      t'.walk k dir [c] = .ok (.entry place, k') := by
  have hexisting : (match t.walk k dir [c] with
      | .ok (.entry place, k') =>
          if t.entry place = some .dir then some (([] : List Place), t, place, k') else none
      | _ => none) = some (made, t', place, k') →
      t.Extends t' ∧ t'.entry place = some .dir ∧
        t'.walk k dir [c] = .ok (.entry place, k') := by
    intro h
    split at h
    · rename_i hwalk
      obtain ⟨hplace, heq⟩ := Option.ite_none_right_eq_some.mp h
      cases heq
      exact ⟨.refl t, hplace, hwalk⟩
    · cases h
  unfold enter at h
  cases c with
  | curDir => exact hexisting h
  | parentDir => exact hexisting h
  | normal name =>
      simp only at h
      split at h
      · rename_i hnone
        cases h
        have hput (place : Place) : (t.put dir name .dir).entry place =
            if place = name :: dir then some .dir else t.entry place :=
          put_entry hdir (by rw [hnone]; simp) place
        refine ⟨extends_put hdir hnone, by rw [hput, if_pos rfl], ?_⟩
        rw [walk_cons, if_pos (by rw [hput, if_neg (by simp)]; exact hdir)]
        simp [hput]
      · exact hexisting h

theorem along_of_walk (h : t.walk k dir cs = .ok (.entry place, k'))
    (hplace : t.entry place = some .dir) : t.along k dir cs = ([], some (t, place, k')) := by
  induction cs generalizing k dir with
  | nil =>
      rw [walk_nil] at h
      cases h
      rfl
  | cons c cs ih =>
      rw [← List.singleton_append] at h
      obtain ⟨dir₁, k₁, hfirst, hrest⟩ := walk_append_eq_entry h
      rw [along, enter_of_walk hfirst (dir_of_walk hrest hplace)]
      simp only [ih hrest, List.nil_append]

/-- Where a walk comes to an end that is no missing name, nothing is made. -/
theorem along_of_stuck (hdir : t.entry dir = some .dir)
    (h : (∃ e, e ≠ .notFound ∧ t.walk k dir cs = .error e) ∨
      ∃ place k', t.entry place ≠ some .dir ∧ t.walk k dir cs = .ok (.entry place, k')) :
    t.along k dir cs = ([], none) := by
  induction cs generalizing k dir with
  | nil =>
      rcases h with ⟨e, -, h⟩ | ⟨place, k', hplace, h⟩
      · rw [walk_nil] at h
        cases h
      · rw [walk_nil] at h
        cases h
        exact absurd hdir hplace
  | cons c cs ih =>
      rw [along]
      by_cases hfirst : ∃ place k₁, t.walk k dir [c] = .ok (.entry place, k₁) ∧
          t.entry place = some .dir
      · obtain ⟨dir₁, k₁, hfirst, hdir₁⟩ := hfirst
        rw [enter_of_walk hfirst hdir₁]
        have hrest := walk_trans hfirst cs
        rw [List.singleton_append] at hrest
        rw [hrest] at h
        simp only [ih hdir₁ h, List.nil_append]
      · rw [enter_of_stuck]
        · rintro name rfl hnone
          have hmissing := walk_missing (k := k) hdir hnone
          -- a missing name is missing at the end, or not found
          by_cases hcs : cs = []
          · rw [hcs, hmissing] at h
            rcases h with ⟨e, -, h⟩ | ⟨place, k', -, h⟩ <;> cases h
          · have hrest := walk_append (t := t) hcs k dir [.normal name]
            rw [hmissing, List.singleton_append] at hrest
            rw [hrest] at h
            rcases h with ⟨e, he, h⟩ | ⟨place, k', -, h⟩
            · cases h
              exact he rfl
            · cases h
        · intro place k₁ hwalk hplace
          exact hfirst ⟨place, k₁, hwalk, hplace⟩

theorem along_spec {made : List Place} (hdir : t.entry dir = some .dir)
    (h : t.along k dir cs = (made, some (t', place, k'))) :
    t.Extends t' ∧ t'.entry place = some .dir ∧
      t'.walk k dir cs = .ok (.entry place, k') := by
  induction cs generalizing t k dir made with
  | nil =>
      cases h
      exact ⟨.refl _, hdir, walk_nil ..⟩
  | cons c cs ih =>
      rw [along] at h
      cases henter : t.enter k dir c with
      | none =>
          rw [henter] at h
          cases h
      | some r =>
          obtain ⟨made₁, t₁, dir₁, k₁⟩ := r
          rw [henter] at h
          obtain ⟨hext, hdir₁, hwalk⟩ := enter_spec hdir henter
          obtain ⟨hext', hplace, hrest⟩ := ih hdir₁ (Prod.ext rfl (Prod.ext_iff.mp h).2)
          refine ⟨hext.trans hext', hplace, ?_⟩
          exact (walk_trans (hext'.walk k dir [c] hwalk) cs).trans hrest

/-! ## §3  `create_dir_all` makes what is missing -/

theorem canonicalize_eq_ok {cwd : Place} {p : Path} :
    t.canonicalize cwd p = .ok place ↔ p.hasNul = false ∧ p.isEmpty = false ∧
      ∃ k, t.walk maxLinks (p.start cwd) p.steps = .ok (.entry place, k) := by
  unfold canonicalize lookup
  cases p.hasNul with
  | true => simp
  | false =>
      cases p.isEmpty with
      | true => simp
      | false =>
          rcases t.walk maxLinks (p.start cwd) p.steps with e | ⟨_ | _, k⟩ <;>
            simp [Except.map]

theorem isDir_iff {cwd : Place} {p : Path} :
    t.isDir cwd p = true ↔ ∃ place, t.canonicalize cwd p = .ok place ∧
      t.entry place = some .dir := by
  unfold isDir
  cases t.canonicalize cwd p with
  | error e => simp
  | ok place => simp

end Tree

namespace Disk

variable {d : Disk} {cwd dir : Place} {absolute : Bool} {up : List Component} {c : Component}
variable {k : ℕ}

/-- The path of components that stand innermost first. -/
abbrev pathOf (absolute : Bool) (up : List Component) : Path := ⟨absolute, up.reverse, false⟩

/-- The outcome of an operation that makes the places that a walk makes. -/
def Made (d : Disk) (r : List Place × Option (Tree × Place × ℕ))
    (out : Except FsError Unit × Disk) : Prop :=
  out.2.touched = d.touched ++ r.1.map .made ∧
    match r.2 with
    | some (t, _, _) => out.1 = .ok () ∧ out.2.tree = t
    | none => ∃ e, out.1 = .error e

theorem hasNul_up (h : (pathOf absolute (c :: up)).hasNul = false) :
    (pathOf absolute up).hasNul = false := by
  rw [Path.hasNul, List.any_reverse, List.any_cons, Bool.or_eq_false_iff] at h
  rw [Path.hasNul, List.any_reverse]
  exact h.2

theorem isDir_pathOf (hnul : (pathOf absolute (c :: up)).hasNul = false)
    (h : d.tree.walk Tree.maxLinks ((pathOf absolute up).start cwd) up.reverse =
      .ok (.entry dir, k)) :
    d.tree.isDir cwd (pathOf absolute (c :: up)) = true ↔
      ∃ place k', d.tree.walk k dir [c] = .ok (.entry place, k') ∧
        d.tree.entry place = some .dir := by
  have hempty : (pathOf absolute (c :: up)).isEmpty = false := by simp [Path.isEmpty]
  have hsteps : (pathOf absolute (c :: up)).steps = up.reverse ++ [c] := by
    simp [Path.steps, Path.tail]
  have hstart : (pathOf absolute (c :: up)).start cwd = (pathOf absolute up).start cwd := rfl
  simp only [Tree.isDir_iff, Tree.canonicalize_eq_ok, hnul, hempty, hsteps, hstart,
    Tree.walk_trans h, true_and]
  constructor
  · rintro ⟨place, ⟨k', hwalk⟩, hplace⟩
    exact ⟨place, k', hwalk, hplace⟩
  · rintro ⟨place, k', hwalk, hplace⟩
    exact ⟨place, ⟨k', hwalk⟩, hplace⟩

/-- `mkdir` in a directory that is there: a new directory, or one that exists already, or
something else. -/
theorem mkdir_cases (hnul : (pathOf absolute (c :: up)).hasNul = false)
    (h : d.tree.walk Tree.maxLinks ((pathOf absolute up).start cwd) up.reverse =
      .ok (.entry dir, k)) (hdir : d.tree.entry dir = some .dir) :
    (∃ t place, d.mkdir cwd absolute up c = (.ok (), ⟨t, d.touched ++ [.made place]⟩) ∧
      d.tree.enter k dir c = some ([place], t, place, k)) ∨
    (d.mkdir cwd absolute up c = (.error .alreadyExists, d) ∧
      d.tree.isDir cwd (pathOf absolute (c :: up)) = true ∧
      ∃ place k', d.tree.enter k dir c = some ([], d.tree, place, k')) ∨
    (d.mkdir cwd absolute up c = (.error .alreadyExists, d) ∧
      d.tree.isDir cwd (pathOf absolute (c :: up)) = false ∧
      d.tree.enter k dir c = none) := by
  have hstart : (pathOf absolute (c :: up)).start cwd = (pathOf absolute up).start cwd := rfl
  by_cases hnew : ∃ name, c = .normal name ∧ d.tree.entry (name :: dir) = none
  · obtain ⟨name, rfl, hnone⟩ := hnew
    refine Or.inl ⟨d.tree.put dir name .dir, name :: dir, ?_, ?_⟩
    · unfold mkdir
      simp only [hnul, hstart, h, hdir, hnone, if_true, Bool.false_eq_true, if_false]
    · simp only [Tree.enter, hnone, if_true]
  · right
    have hsome (name : String) (hc : c = .normal name) : d.tree.entry (name :: dir) ≠ none :=
      fun hnone => hnew ⟨name, hc, hnone⟩
    have hexists : d.mkdir cwd absolute up c = (.error .alreadyExists, d) := by
      unfold mkdir
      simp only [hnul, hstart, h, hdir, if_true, Bool.false_eq_true, if_false]
      cases c with
      | normal name => exact if_neg (hsome name rfl)
      | _ => rfl
    by_cases hthere : d.tree.isDir cwd (pathOf absolute (c :: up)) = true
    · obtain ⟨place, k', hwalk, hplace⟩ := (isDir_pathOf hnul h).mp hthere
      exact Or.inl ⟨hexists, hthere, place, k', Tree.enter_of_walk hwalk hplace⟩
    · refine Or.inr ⟨hexists, eq_false_of_ne_true hthere, Tree.enter_of_stuck hsome ?_⟩
      intro place k' hwalk hplace
      exact hthere ((isDir_pathOf hnul h).mpr ⟨place, k', hwalk, hplace⟩)

/-- A directory is reached through a directory. -/
theorem dir_up_of_isDir (h : d.tree.isDir cwd (pathOf absolute (c :: up)) = true) :
    ∃ dir k, d.tree.walk Tree.maxLinks ((pathOf absolute up).start cwd) up.reverse =
      .ok (.entry dir, k) ∧ d.tree.entry dir = some .dir := by
  obtain ⟨place, hplace, hdir⟩ := Tree.isDir_iff.mp h
  obtain ⟨-, -, k, hwalk⟩ := Tree.canonicalize_eq_ok.mp hplace
  have hsteps : (pathOf absolute (c :: up)).steps = up.reverse ++ [c] := by
    simp [Path.steps, Path.tail]
  rw [hsteps] at hwalk
  obtain ⟨dir, k', hup, hlast⟩ := Tree.walk_append_eq_entry hwalk
  exact ⟨dir, k', hup, Tree.dir_of_walk hlast hdir⟩

/-- `mkdir` where the parent leads to no directory. -/
theorem mkdir_of_walk (cwd : Place) (hnul : (pathOf absolute (c :: up)).hasNul = false) :
    (∀ e, d.tree.walk Tree.maxLinks ((pathOf absolute up).start cwd) up.reverse = .error e →
      d.mkdir cwd absolute up c = (.error e, d)) ∧
    (∀ place name k, d.tree.walk Tree.maxLinks ((pathOf absolute up).start cwd) up.reverse =
      .ok (.missing place name, k) → d.mkdir cwd absolute up c = (.error .notFound, d)) ∧
    (∀ place k, d.tree.walk Tree.maxLinks ((pathOf absolute up).start cwd) up.reverse =
      .ok (.entry place, k) → d.tree.entry place ≠ some .dir →
      d.mkdir cwd absolute up c = (.error .notADirectory, d)) := by
  have hstart : (pathOf absolute (c :: up)).start cwd = (pathOf absolute up).start cwd := rfl
  refine ⟨?_, ?_, ?_⟩
  · intro e h
    simp only [mkdir, hnul, hstart, h, Bool.false_eq_true, if_false]
  · intro place name k h
    simp only [mkdir, hnul, hstart, h, Bool.false_eq_true, if_false]
  · intro place k h hplace
    simp only [mkdir, hnul, hstart, h, hplace, Bool.false_eq_true, if_false]

/-- One more directory after those that have been made. -/
theorem made_mkdir {d₀ : Disk} {made : List Place}
    (hnul : (pathOf absolute (c :: up)).hasNul = false)
    (h : d.tree.walk Tree.maxLinks ((pathOf absolute up).start cwd) up.reverse =
      .ok (.entry dir, k)) (hdir : d.tree.entry dir = some .dir)
    (htouched : d.touched = d₀.touched ++ made.map .made) :
    (d.mkdir cwd absolute up c).1 ≠ .error .notFound ∧
    d₀.Made (made ++ (d.tree.along k dir [c]).1, (d.tree.along k dir [c]).2)
      (match d.mkdir cwd absolute up c with
        | (.ok (), d) => (.ok (), d)
        | (.error e, d) =>
            if d.tree.isDir cwd (pathOf absolute (c :: up)) then (.ok (), d)
            else (.error e, d)) := by
  rw [Tree.along]
  rcases mkdir_cases hnul h hdir with ⟨t, place, hmkdir, henter⟩ |
    ⟨hmkdir, hthere, place, k', henter⟩ | ⟨hmkdir, hthere, henter⟩
  · rw [hmkdir, henter]
    exact ⟨by simp, by simp [Tree.along, htouched], rfl, rfl⟩
  · rw [hmkdir, henter]
    simp only [hthere, if_true]
    exact ⟨by simp, by simp [Tree.along, htouched], rfl, rfl⟩
  · rw [hmkdir, henter]
    simp only [hthere, Bool.false_eq_true, if_false]
    exact ⟨by simp, by simp [htouched], _, rfl⟩

theorem createDirAllFrom_of_ne (h : (d.mkdir cwd absolute up c).1 ≠ .error .notFound) :
    d.createDirAllFrom cwd absolute (c :: up) =
      match d.mkdir cwd absolute up c with
      | (.ok (), d) => (.ok (), d)
      | (.error e, d) =>
          if d.tree.isDir cwd (pathOf absolute (c :: up)) then (.ok (), d)
          else (.error e, d) := by
  rw [createDirAllFrom]
  rcases hmkdir : d.mkdir cwd absolute up c with ⟨e | _, d'⟩
  · cases e with
    | notFound => exact absurd (by rw [hmkdir]) h
    | _ => rfl
  · rfl

/-- Where the walk to the parent is stuck, nothing is made. -/
theorem made_of_stuck (hdir : d.tree.entry ((pathOf absolute up).start cwd) = some .dir)
    {e : FsError} (hmkdir : d.mkdir cwd absolute up c = (.error e, d)) (hne : e ≠ .notFound)
    (h : (∃ e, e ≠ .notFound ∧
        d.tree.walk Tree.maxLinks ((pathOf absolute up).start cwd) up.reverse = .error e) ∨
      ∃ place k', d.tree.entry place ≠ some .dir ∧
        d.tree.walk Tree.maxLinks ((pathOf absolute up).start cwd) up.reverse =
          .ok (.entry place, k')) :
    d.Made (d.tree.along Tree.maxLinks ((pathOf absolute (c :: up)).start cwd)
      (c :: up).reverse) (d.createDirAllFrom cwd absolute (c :: up)) := by
  have hthere : d.tree.isDir cwd (pathOf absolute (c :: up)) = false := by
    rw [Bool.eq_false_iff]
    intro hthere
    obtain ⟨dir, k, hwalk, hdir⟩ := dir_up_of_isDir hthere
    rcases h with ⟨e, -, h⟩ | ⟨place, k', hplace, h⟩
    · rw [hwalk] at h
      cases h
    · rw [hwalk] at h
      cases h
      exact hplace hdir
  rw [createDirAllFrom_of_ne (by rw [hmkdir]; simp [hne]), hmkdir, List.reverse_cons]
  simp only [hthere, Bool.false_eq_true, if_false]
  rw [Tree.along_append, show (pathOf absolute (c :: up)).start cwd =
    (pathOf absolute up).start cwd from rfl, Tree.along_of_stuck hdir h]
  exact ⟨by simp, e, rfl⟩

/-- Where the parent is missing, it is made first. -/
theorem made_of_missing (hdir : d.tree.entry ((pathOf absolute up).start cwd) = some .dir)
    (hnul : (pathOf absolute (c :: up)).hasNul = false)
    (hmkdir : d.mkdir cwd absolute up c = (.error .notFound, d))
    (hmade : d.Made (d.tree.along Tree.maxLinks ((pathOf absolute up).start cwd) up.reverse)
      (d.createDirAllFrom cwd absolute up)) :
    d.Made (d.tree.along Tree.maxLinks ((pathOf absolute (c :: up)).start cwd)
      (c :: up).reverse) (d.createDirAllFrom cwd absolute (c :: up)) := by
  rw [List.reverse_cons, Tree.along_append,
    show (pathOf absolute (c :: up)).start cwd = (pathOf absolute up).start cwd from rfl,
    createDirAllFrom, hmkdir]
  rcases halong : d.tree.along Tree.maxLinks ((pathOf absolute up).start cwd) up.reverse with
    ⟨made, _ | ⟨t, place, k⟩⟩
  · rw [halong] at hmade
    generalize d.createDirAllFrom cwd absolute up = out at hmade
    obtain ⟨result, d'⟩ := out
    obtain ⟨htouched, e, rfl⟩ := hmade
    exact ⟨htouched, e, rfl⟩
  · rw [halong] at hmade
    obtain ⟨-, hplace, hwalk⟩ := Tree.along_spec hdir halong
    generalize d.createDirAllFrom cwd absolute up = out at hmade
    obtain ⟨result, d'⟩ := out
    obtain ⟨htouched, rfl, rfl⟩ := hmade
    exact (made_mkdir hnul hwalk hplace htouched).2

/-- `create_dir_all` makes what a walk from the left misses. -/
theorem createDirAllFrom_made (hdir : d.tree.entry ((pathOf absolute up).start cwd) = some .dir)
    (hnul : (pathOf absolute up).hasNul = false) :
    d.Made (d.tree.along Tree.maxLinks ((pathOf absolute up).start cwd) up.reverse)
      (d.createDirAllFrom cwd absolute up) := by
  induction up with
  | nil => exact ⟨by simp [Tree.along, createDirAllFrom], rfl, rfl⟩
  | cons c up ih =>
      have hmade := ih hdir (hasNul_up hnul)
      obtain ⟨herror, hmissing, hfile⟩ := mkdir_of_walk (d := d) cwd hnul
      rcases hwalk : d.tree.walk Tree.maxLinks ((pathOf absolute up).start cwd) up.reverse with
        e | ⟨place | _, k⟩
      · by_cases he : e = .notFound
        · exact made_of_missing hdir hnul (herror _ (he ▸ hwalk)) hmade
        · exact made_of_stuck hdir (herror e hwalk) he (Or.inl ⟨e, he, hwalk⟩)
      · by_cases hplace : d.tree.entry place = some .dir
        · have hnothing : d.touched = d.touched ++ [].map .made := by simp
          obtain ⟨hne, hlast⟩ := made_mkdir hnul hwalk hplace hnothing
          rw [createDirAllFrom_of_ne hne, List.reverse_cons, Tree.along_append,
            show (pathOf absolute (c :: up)).start cwd = (pathOf absolute up).start cwd from rfl,
            Tree.along_of_walk hwalk hplace]
          exact hlast
        · exact made_of_stuck hdir (hfile place k hwalk hplace) (by simp)
            (Or.inr ⟨place, k, hplace, hwalk⟩)
      · exact made_of_missing hdir hnul (hmissing _ _ k hwalk) hmade

end Disk

/-! ## §4  Opening what is reached then -/

namespace Tree

variable {t : Tree} {cwd place : Place} {p : Path} {k : ℕ}

/-- The file that is opened at the end of a walk, or made there. -/
def landing (t : Tree) : Except FsError (Found × ℕ) → List Place
  | .ok (.missing dir name, _) => [name :: dir]
  | .ok (.entry place, _) =>
      match t.entry place with
      | some (.file _) => [place]
      | _ => []
  | .error _ => []

/-- The places where something is made or opened when the path is followed from the left,
with its missing directories made on the way. -/
def reached (t : Tree) (cwd : Place) (p : Path) : List Place :=
  if Path.hasNul ⟨p.absolute, p.components.dropLast, false⟩ then []
  else
    match t.along maxLinks (p.start cwd) p.components.dropLast with
    | (made, none) => made
    | (made, some (t, dir, k)) =>
        if p.hasNul then made
        else made ++ t.landing (t.walk k dir (p.components.getLast?.toList ++ p.tail))

theorem steps_eq (p : Path) :
    p.steps = p.components.dropLast ++ (p.components.getLast?.toList ++ p.tail) := by
  rw [Path.steps]
  rcases List.eq_nil_or_concat p.components with h | ⟨cs, c, h⟩ <;> simp [h]

/-- What exists is reached, and nothing else. -/
theorem eq_of_mem_reached (h : t.canonicalize cwd p = .ok place) {x : Place}
    (hx : x ∈ t.reached cwd p) : x = place := by
  obtain ⟨hnul, -, k, hwalk⟩ := canonicalize_eq_ok.mp h
  rw [steps_eq] at hwalk
  obtain ⟨dir, k₁, hup, hlast⟩ := walk_append_eq_entry hwalk
  have halong : t.along maxLinks (p.start cwd) p.components.dropLast =
      ([], some (t, dir, k₁)) := by
    rcases List.eq_nil_or_concat p.components with hnil | ⟨cs, c, hcs⟩
    · rw [hnil, List.dropLast_nil, walk_nil] at hup
      cases hup
      rw [hnil]
      rfl
    · refine along_of_walk hup ?_
      by_contra hdir
      rw [hcs, List.concat_eq_append, List.getLast?_concat, Option.toList_some,
        List.singleton_append, walk_cons, if_neg hdir] at hlast
      cases hlast
  unfold reached at hx
  split at hx
  · cases hx
  · simp only [halong, hnul, hlast, landing, List.nil_append, Bool.false_eq_true, if_false] at hx
    split at hx
    · exact List.mem_singleton.mp hx
    · cases hx

theorem dir_tail {dir : Place} (h : t.entry dir = some .dir) : t.entry dir.tail = some .dir := by
  cases dir with
  | nil => exact h
  | cons name dir =>
      have hsome : t.entry (name :: dir) ≠ none := by
        rw [h]
        simp
      exact t.closed hsome

/-- At a directory there is nothing to open. -/
theorem landing_tail {dir : Place} (h : t.entry dir = some .dir) (p : Path) :
    t.landing (t.walk k dir p.tail) = [] := by
  rw [Path.tail]
  split <;> simp [walk_cons, landing, h]

/-- Where a new name is reached through a parent that exists, it is all that is reached. -/
theorem eq_of_mem_reached_of_parent {parent : Path} {dir x : Place}
    (hparent : p.parent = some parent) (hdir : t.canonicalize cwd parent = .ok dir)
    (hstart : t.entry (p.start cwd) = some .dir)
    (hnew : ∀ name, p.fileName = some name → t.entry (name :: dir) = none)
    (hx : x ∈ t.reached cwd p) : ∃ name, p.fileName = some name ∧ x = name :: dir := by
  rcases List.eq_nil_or_concat p.components with hnil | ⟨cs, c, hcs⟩
  · rw [Path.parent, if_pos hnil] at hparent
    cases hparent
  rw [List.concat_eq_append] at hcs
  have hup : parent = ⟨p.absolute, cs, false⟩ := by
    simp only [Path.parent, hcs, List.append_eq_nil_iff, List.cons_ne_self, and_false, if_false,
      List.dropLast_concat, Option.some.injEq] at hparent
    exact hparent.symm
  obtain ⟨hnul, -, k, hwalk⟩ := canonicalize_eq_ok.mp hdir
  rw [hup] at hnul hwalk
  have hsteps : Path.steps ⟨p.absolute, cs, false⟩ = cs := by simp [Path.steps, Path.tail]
  rw [hsteps] at hwalk
  change t.walk maxLinks (p.start cwd) cs = _ at hwalk
  simp only [reached, hcs, List.dropLast_concat, hnul, Bool.false_eq_true, if_false] at hx
  by_cases hplace : t.entry dir = some .dir
  · simp only [along_of_walk hwalk hplace, List.nil_append, List.getLast?_concat,
      Option.toList_some, List.singleton_append] at hx
    split at hx
    · cases hx
    · cases c with
      | normal name =>
          have hname : p.fileName = some name := by simp [Path.fileName, hcs]
          rw [walk_cons, if_pos hplace] at hx
          simp only [hnew name hname] at hx
          refine ⟨name, hname, ?_⟩
          split at hx
          · exact List.mem_singleton.mp hx
          · cases hx
      | curDir =>
          simp only [walk_cons, hplace, if_true, landing_tail hplace] at hx
          cases hx
      | parentDir =>
          simp only [walk_cons, hplace, if_true, landing_tail (dir_tail hplace)] at hx
          cases hx
  · rw [along_of_stuck hstart (Or.inr ⟨dir, k, hplace, hwalk⟩)] at hx
    cases hx

end Tree

namespace Disk

variable {d : Disk} {cwd : Place} {p : Path}

theorem hasNul_congr {q : Path} (h : p.components = q.components) : p.hasNul = q.hasNul := by
  rw [Path.hasNul, Path.hasNul, h]

theorem createDirAll_nul (h : p.hasNul = true) : d.createDirAll cwd p = (.error .nulByte, d) := by
  have hcomponents : p.components.reverse.reverse = p.components := List.reverse_reverse _
  unfold createDirAll
  cases hrev : p.components.reverse with
  | nil =>
      rw [List.reverse_eq_nil_iff] at hrev
      rw [Path.hasNul, hrev] at h
      cases h
  | cons c up =>
      rw [hrev] at hcomponents
      have hnul : (pathOf p.absolute (c :: up)).hasNul = true :=
        (hasNul_congr hcomponents).trans h
      have hmkdir : d.mkdir cwd p.absolute up c = (.error .nulByte, d) := by
        rw [mkdir, if_pos hnul]
      have hthere : d.tree.isDir cwd (pathOf p.absolute (c :: up)) = false := by
        rw [Bool.eq_false_iff, Ne, Tree.isDir_iff]
        rintro ⟨place, hplace, -⟩
        rw [(Tree.canonicalize_eq_ok.mp hplace).1] at hnul
        cases hnul
      rw [createDirAllFrom_of_ne (by rw [hmkdir]; simp), hmkdir]
      simp only [hthere, Bool.false_eq_true, if_false]

theorem createDirAll_made (hdir : d.tree.entry (p.start cwd) = some .dir)
    (hnul : p.hasNul = false) :
    d.Made (d.tree.along Tree.maxLinks (p.start cwd) p.components) (d.createDirAll cwd p) := by
  have hmade : d.Made (d.tree.along Tree.maxLinks
        ((pathOf p.absolute p.components.reverse).start cwd) p.components.reverse.reverse)
      (d.createDirAllFrom cwd p.absolute p.components.reverse) :=
    createDirAllFrom_made hdir ((hasNul_congr (List.reverse_reverse _)).trans hnul)
  rw [List.reverse_reverse] at hmade
  exact hmade

/-- What a read touches. -/
theorem mem_touched_readToString {touch : Touch}
    (h : touch ∈ (d.readToString cwd p).2.touched) :
    touch ∈ d.touched ∨ d.tree.canonicalize cwd p = .ok touch.place := by
  unfold readToString at h
  cases hplace : d.tree.canonicalize cwd p with
  | error e => exact Or.inl (by simpa [hplace] using h)
  | ok place =>
      rw [hplace] at h
      cases hcontent : d.content place with
      | none => exact Or.inl (by simpa [hcontent] using h)
      | some bytes =>
          simp only [hcontent] at h
          have hmem : touch ∈ d.touched ++ [.read place] := by
            split at h <;> exact h
          rcases List.mem_append.mp hmem with hmem | hmem
          · exact Or.inl hmem
          · rw [List.mem_singleton.mp hmem]
            exact Or.inr rfl

/-- What an open touches. -/
theorem touched_openCreate {change : List UInt8 → List UInt8} {touch : Place → Touch}
    (htouch : ∀ place, (touch place).place = place) (hnul : p.hasNul = false)
    (hempty : p.isEmpty = false) :
    (d.openCreate cwd p change touch).2.touched.map Touch.place =
      d.touched.map Touch.place ++
        d.tree.landing (d.tree.walk Tree.maxLinks (p.start cwd) p.steps) := by
  unfold openCreate Tree.lookup
  rw [hnul, hempty]
  simp only [Bool.false_eq_true, if_false]
  rcases d.tree.walk Tree.maxLinks (p.start cwd) p.steps with e | ⟨place | _, k⟩
  · simp [Except.map, Tree.landing]
  · simp only [Except.map, Tree.landing, content]
    rcases place with _ | ⟨name, dir⟩
    · simp [d.tree.root]
    · rcases d.tree.entry (name :: dir) with _ | _ | _ | _ <;> simp [htouch]
  · simp [Except.map, Tree.landing, htouch]

/-- An open after the parents have been made touches what is reached. -/
theorem touched_open_with_parents {change : List UInt8 → List UInt8} {touch : Place → Touch}
    (htouch : ∀ place, (touch place).place = place)
    (hstart : d.tree.entry (p.start cwd) = some .dir) (d' : Disk) (e : Except FsError Unit)
    (hmade : d.createParent cwd p = (e, d')) :
    (match e with
      | .error _ => d'
      | .ok () => (d'.openCreate cwd p change touch).2).touched.map Touch.place =
      d.touched.map Touch.place ++ d.tree.reached cwd p := by
  rcases List.eq_nil_or_concat p.components with hnil | ⟨cs, c, hcs⟩
  · rw [createParent, Path.parent, if_pos hnil] at hmade
    cases hmade
    have hnul : p.hasNul = false := by rw [Path.hasNul, hnil]; rfl
    have hreached : d.tree.reached cwd p =
        d.tree.landing (d.tree.walk Tree.maxLinks (p.start cwd) p.steps) := by
      simp [Tree.reached, Path.steps, hnil, Path.hasNul, Tree.along]
    cases hempty : p.isEmpty with
    | false => rw [hreached, touched_openCreate htouch hnul hempty]
    | true =>
        have hnone : d.tree.landing (d.tree.walk Tree.maxLinks (p.start cwd) p.steps) = [] := by
          rw [Path.steps, hnil, List.nil_append, Tree.landing_tail hstart]
        rw [hreached, hnone]
        simp [openCreate, Tree.lookup, hnul, hempty]
  · rw [List.concat_eq_append] at hcs
    have hparent : p.parent = some ⟨p.absolute, cs, false⟩ := by simp [Path.parent, hcs]
    rw [createParent, hparent] at hmade
    simp only at hmade
    cases hnul : Path.hasNul ⟨p.absolute, cs, false⟩ with
    | true =>
        rw [createDirAll_nul hnul] at hmade
        cases hmade
        simp [Tree.reached, hcs, hnul]
    | false =>
        have hout := createDirAll_made (p := ⟨p.absolute, cs, false⟩) hstart hnul
        rw [hmade] at hout
        change d.Made (d.tree.along Tree.maxLinks (p.start cwd) cs) (e, d') at hout
        have hplace (made : List Place) : (made.map Touch.made).map Touch.place = made := by
          simp [Function.comp_def, Touch.place]
        simp only [Tree.reached, hcs, List.dropLast_concat, hnul, Bool.false_eq_true, if_false]
        rcases halong : d.tree.along Tree.maxLinks (p.start cwd) cs with
          ⟨made, _ | ⟨t, dir, k⟩⟩
        · rw [halong] at hout
          obtain ⟨htouched, e', rfl⟩ := hout
          change d'.touched = d.touched ++ made.map .made at htouched
          simp only [htouched, List.map_append, hplace]
        · rw [halong] at hout
          obtain ⟨htouched, rfl, rfl⟩ := hout
          change d'.touched = d.touched ++ made.map .made at htouched
          obtain ⟨-, -, hwalk⟩ := Tree.along_spec hstart halong
          have hsame : (d'.openCreate cwd p change touch).2.touched.map Touch.place =
              d'.touched.map Touch.place ++ if p.hasNul then [] else
                d'.tree.landing (d'.tree.walk k dir ([c] ++ p.tail)) := by
            cases hnul' : p.hasNul with
            | true => simp [openCreate, Tree.lookup, hnul']
            | false =>
                have hempty : p.isEmpty = false := by simp [Path.isEmpty, hcs]
                have hsteps : p.steps = cs ++ ([c] ++ p.tail) := by simp [Path.steps, hcs]
                rw [touched_openCreate htouch hnul' hempty, hsteps, Tree.walk_trans hwalk]
                simp
          simp only [hsame, htouched, List.map_append, hplace, List.getLast?_concat,
            Option.toList_some, List.append_assoc]
          split <;> simp

end Disk

end Oclaw.Lib
