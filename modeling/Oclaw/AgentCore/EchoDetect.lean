import Mathlib.Data.List.Induction
import Mathlib.Data.List.Nodup
import Oclaw.Lib.Search

/-!
# The echo tracker

`crates/agent-core/src/echo_detect.rs`. A remembered text owns two entries, the text and
its normalized key. The entries live in two structures, a queue in the order of insertion
and a set, which the operations have to change in step.
-/

namespace Oclaw.AgentCore

open Oclaw.Lib

/-- The hash set lists each of its keys once. -/
structure EchoTracker : Type where
  recent : List String
  set : List String
  capacity : ℕ

namespace EchoTracker

/-- `lower` is `str::to_lowercase`. -/
def normKey (lower : String → String) (text : String) : String :=
  "~:" ++ " ".intercalate ((splitWhitespace text.toList).map (lower ∘ String.ofList))

def consume (t : EchoTracker) (key : String) : EchoTracker :=
  { t with recent := t.recent.filter (· ≠ key), set := t.set.filter (· ≠ key) }

/-- Whether the text was recently sent by us; a hit is consumed. -/
def has (lower : String → String) (t : EchoTracker) (text : String) : Bool × EchoTracker :=
  let nk := normKey lower text
  if text ∈ t.set then
    let t := t.consume text
    (true, if nk ∈ t.set then t.consume nk else t)
  else if nk ∈ t.set then (true, t.consume nk)
  else (false, t)

def normalize (lower : String → String) (text : String) : String :=
  " ".intercalate ((splitWhitespace text.toList).map (lower ∘ String.ofList))

def new (capacity : ℕ) : EchoTracker := ⟨[], [], capacity⟩

/-- `recent.pop_front()` and the removal of the popped key from the set. -/
def evict (t : EchoTracker) : EchoTracker :=
  match t.recent with
  | [] => t
  | old :: rest => { t with recent := rest, set := t.set.filter (· ≠ old) }

def insertEntry (t : EchoTracker) (key : String) : EchoTracker :=
  if key ∈ t.set then t
  else
    let t := if t.capacity ≤ t.recent.length then t.evict else t
    { t with recent := t.recent ++ [key], set := key :: t.set }

/-- Record a message sent by us. -/
def remember (lower : String → String) (t : EchoTracker) (text : String) : EchoTracker :=
  if text ∈ t.set then t
  else (t.insertEntry text).insertEntry (normKey lower text)

/-- Forget a message; only the set is changed. -/
def forget (lower : String → String) (t : EchoTracker) (text : String) : EchoTracker :=
  { t with set := (t.set.filter (· ≠ text)).filter (· ≠ normKey lower text) }

inductive EchoCall : Type where
  | remember (text : String)
  | has (text : String)
  | forget (text : String)

variable (lower : String → String)

def step (t : EchoTracker) : EchoCall → EchoTracker
  | .remember text => t.remember lower text
  | .has text => (t.has lower text).2
  | .forget text => t.forget lower text

def run (t : EchoTracker) (calls : List EchoCall) : EchoTracker := calls.foldl (step lower) t

variable {lower} {t : EchoTracker} {key text text' : String}

theorem run_snoc (t : EchoTracker) (calls : List EchoCall) (c : EchoCall) :
    run lower t (calls ++ [c]) = step lower (run lower t calls) c := by
  simp [run, List.foldl_append]

theorem normKey_eq (lower : String → String) (text : String) :
    normKey lower text = "~:" ++ normalize lower text := rfl

/-! ## The two structures -/

/-- The queue lists the members of the set, each once, and stays within the capacity. -/
structure Coherent (t : EchoTracker) : Prop where
  nodup : t.recent.Nodup
  members : ∀ key, key ∈ t.recent ↔ key ∈ t.set
  bounded : t.recent.length ≤ max t.capacity 1

/-- Whatever is still queued after an insertion, the set still has: the evicted key
was not queued a second time. -/
def KeepsLive (t : EchoTracker) : Prop :=
  ∀ key kept, kept ∈ (t.insertEntry key).recent → kept ∈ (t.insertEntry key).set

theorem Coherent.new (capacity : ℕ) : Coherent (new capacity) where
  nodup := List.nodup_nil
  members := fun _ => Iff.rfl
  bounded := Nat.zero_le _

@[simp] theorem evict_capacity (t : EchoTracker) : t.evict.capacity = t.capacity := by
  unfold evict
  split <;> rfl

theorem evict_recent (t : EchoTracker) : t.evict.recent = t.recent.tail := by
  unfold evict
  split
  · rename_i hnil
    rw [hnil]
    rfl
  · rename_i old rest hcons
    rw [hcons]
    rfl

theorem Coherent.evict (h : Coherent t) : Coherent t.evict := by
  refine ⟨?_, ?_, ?_⟩
  · rw [evict_recent]
    exact h.nodup.tail
  · intro key
    have hmembers := h.members key
    have hnodup := h.nodup
    unfold EchoTracker.evict
    split
    · exact hmembers
    · rename_i old rest hcons
      rw [hcons] at hmembers hnodup
      have hold : old ∉ rest := (List.nodup_cons.mp hnodup).1
      simp only [List.mem_filter, decide_eq_true_eq, ← hmembers, List.mem_cons]
      constructor
      · intro hrest
        exact ⟨Or.inr hrest, fun heq => hold (heq ▸ hrest)⟩
      · rintro ⟨heq | hrest, hne⟩
        · exact absurd heq hne
        · exact hrest
  · rw [evict_recent, evict_capacity, List.length_tail]
    exact Nat.le_trans (Nat.sub_le _ _) h.bounded

theorem evict_subset {t : EchoTracker} (h : key ∈ t.evict.set) : key ∈ t.set := by
  unfold evict at h
  split at h
  · exact h
  · exact List.mem_of_mem_filter h

/-- Putting a new key at the end, where there is room for it. -/
theorem Coherent.push (h : Coherent t) (hnew : key ∉ t.set)
    (hroom : t.recent.length + 1 ≤ max t.capacity 1) :
    Coherent { t with recent := t.recent ++ [key], set := key :: t.set } := by
  refine ⟨?_, ?_, ?_⟩
  · refine List.nodup_append.mpr ⟨h.nodup, List.nodup_singleton _, ?_⟩
    intro a ha b hb heq
    rw [List.mem_singleton] at hb
    rw [heq, hb] at ha
    exact hnew ((h.members key).mp ha)
  · intro k
    show k ∈ t.recent ++ [key] ↔ k ∈ key :: t.set
    rw [List.mem_append, List.mem_singleton, List.mem_cons, h.members, or_comm]
  · show (t.recent ++ [key]).length ≤ max t.capacity 1
    rw [List.length_append]
    exact hroom

theorem Coherent.insertEntry (h : Coherent t) (key : String) :
    Coherent (t.insertEntry key) := by
  unfold EchoTracker.insertEntry
  split
  · exact h
  · rename_i hnew
    simp only
    split
    · -- the queue is full, and its oldest key makes room
      rename_i hfull
      apply h.evict.push (fun hmem => hnew (evict_subset hmem))
      have hbound := h.bounded
      rw [evict_recent, evict_capacity, List.length_tail]
      omega
    · apply h.push hnew
      omega

theorem Coherent.keepsLive (h : Coherent t) : KeepsLive t :=
  fun key kept hkept => ((h.insertEntry key).members kept).mp hkept

theorem Coherent.remember (h : Coherent t) (text : String) :
    Coherent (t.remember lower text) := by
  unfold EchoTracker.remember
  split
  · exact h
  · exact (h.insertEntry text).insertEntry _

theorem Coherent.consume (h : Coherent t) (key : String) : Coherent (t.consume key) where
  nodup := h.nodup.filter _
  members := by
    intro k
    show k ∈ t.recent.filter (· ≠ key) ↔ k ∈ t.set.filter (· ≠ key)
    rw [List.mem_filter, List.mem_filter, h.members]
  bounded := Nat.le_trans (List.length_filter_le _ _) h.bounded

theorem Coherent.has (h : Coherent t) (text : String) : Coherent (t.has lower text).2 := by
  unfold EchoTracker.has
  simp only
  split
  · show Coherent (if normKey lower text ∈ (t.consume text).set then
      (t.consume text).consume (normKey lower text) else t.consume text)
    split
    · exact (h.consume text).consume _
    · exact h.consume text
  · split
    · exact h.consume _
    · exact h

/-- **What `forget` breaks.** It takes keys out of the set and leaves them queued. -/
theorem Coherent.forget_iff (h : Coherent t) :
    Coherent (t.forget lower text) ↔ text ∉ t.set ∧ normKey lower text ∉ t.set := by
  have hset : ∀ k, k ∈ (t.forget lower text).set ↔
      k ∈ t.set ∧ k ≠ text ∧ k ≠ normKey lower text := by
    intro k
    simp only [EchoTracker.forget, List.mem_filter, decide_eq_true_eq, and_assoc]
  constructor
  · intro hafter
    -- the queue is as before, so the set must be
    have hsame : ∀ k, k ∈ t.set → k ≠ text ∧ k ≠ normKey lower text := by
      intro k hk
      have hqueued : k ∈ (t.forget lower text).recent := (h.members k).mpr hk
      exact ((hset k).mp ((hafter.members k).mp hqueued)).2
    exact ⟨fun hmem => (hsame _ hmem).1 rfl, fun hmem => (hsame _ hmem).2 rfl⟩
  · rintro ⟨htext, hnorm⟩
    refine ⟨h.nodup, ?_, h.bounded⟩
    intro k
    rw [hset]
    show k ∈ t.recent ↔ _
    rw [h.members]
    refine ⟨fun hk => ⟨hk, ?_, ?_⟩, fun hk => hk.1⟩
    · rintro rfl
      exact htext hk
    · rintro rfl
      exact hnorm hk

/-! ## Runs -/

/-- Each forgotten text, and its normalized key, is one that the tracker does not hold
when it is forgotten. -/
def ForgetsNothing (lower : String → String) (t : EchoTracker) (calls : List EchoCall) : Prop :=
  ∀ done text, done ++ [.forget text] <+: calls →
    text ∉ (run lower t done).set ∧ normKey lower text ∉ (run lower t done).set

theorem Coherent.step (h : Coherent t) {c : EchoCall}
    (hc : ∀ text, c = .forget text → text ∉ t.set ∧ normKey lower text ∉ t.set) :
    Coherent (step lower t c) := by
  cases c with
  | remember text => exact h.remember text
  | has text => exact h.has text
  | forget text => exact h.forget_iff.mpr (hc text rfl)

theorem Coherent.run (h : Coherent t) {calls : List EchoCall}
    (hforget : ForgetsNothing lower t calls) : Coherent (run lower t calls) := by
  induction calls using List.reverseRecOn with
  | nil => exact h
  | append_singleton calls c ih =>
      rw [run_snoc]
      apply Coherent.step
      · exact ih fun done text hdone =>
          hforget done text (hdone.trans (List.prefix_append _ _))
      · rintro text rfl
        exact hforget calls text (List.prefix_refl _)

/-- **Representation of the tracker.** In every state of a run from the empty tracker the
queue lists the members of the set, each once, within the capacity, and no insertion evicts
a key that is still queued, exactly when the run forgets only what is not held. -/
theorem coherent_run_iff (lower : String → String) (capacity : ℕ) (calls : List EchoCall) :
    (∀ done, done <+: calls →
      Coherent (run lower (new capacity) done) ∧ KeepsLive (run lower (new capacity) done)) ↔
    ForgetsNothing lower (new capacity) calls := by
  constructor
  · intro hall done text hdone
    have hbefore := (hall done ((List.prefix_append _ _).trans hdone)).1
    have hafter := (hall _ hdone).1
    rw [run_snoc] at hafter
    exact hbefore.forget_iff.mp hafter
  · intro hforget done hdone
    have hcoherent : Coherent (EchoTracker.run lower (new capacity) done) :=
      (Coherent.new capacity).run fun done' text hdone' =>
        hforget done' text (hdone'.trans hdone)
    exact ⟨hcoherent, hcoherent.keepsLive⟩

/-- The forgotten message stays queued. It is remembered again, and the next insertion
evicts the stale entry and with it the live one. -/
theorem forget_evicts_live :
    ¬ Coherent (run id (new 4) [.remember "a", .forget "a"]) ∧
    ¬ KeepsLive (run id (new 4) [.remember "a", .forget "a", .remember "a"]) := by
  constructor
  · intro h
    exact absurd ((h.members "a").mp (by decide)) (by decide)
  · intro h
    exact absurd (h "b" "a" (by decide)) (by decide)

/-! ## Completeness -/

theorem has_iff : (t.has lower text).1 = true ↔ text ∈ t.set ∨ normKey lower text ∈ t.set := by
  unfold EchoTracker.has
  simp only
  split
  · simp_all
  · split <;> simp_all

theorem mem_insertEntry (t : EchoTracker) (key : String) : key ∈ (t.insertEntry key).set := by
  unfold insertEntry
  split
  · assumption
  · exact List.mem_cons_self

/-- Spaces at the end do not count. -/
theorem normalize_padded (lower : String → String) (text : String) (n : ℕ) :
    normalize lower (text ++ String.ofList (List.replicate n ' ')) = normalize lower text := by
  have hwords : ∀ n, splitWhitespace (text.toList ++ List.replicate n ' ') =
      splitWhitespace text.toList := by
    intro n
    cases n with
    | zero => rw [List.replicate_zero, List.append_nil]
    | succ n =>
        have hblank : ∀ n, (splitAt isWhitespace (List.replicate n ' ')).filter
            (fun w => !w.isEmpty) = [] := by
          intro n
          induction n with
          | zero => rfl
          | succ n ih =>
              rw [List.replicate_succ, splitAt, if_pos (by decide), List.filter_cons]
              exact ih
        unfold splitWhitespace
        rw [List.replicate_succ, splitAt_append_sep (by decide), List.filter_append, hblank,
          List.append_nil]
  unfold normalize
  rw [String.toList_append, String.toList_ofList, hwords]

/-- Every text has a form with the same normalization that the set does not list. -/
theorem exists_unlisted (lower : String → String) (text : String) (set : List String) :
    ∃ text', normalize lower text' = normalize lower text ∧ text' ∉ set := by
  have hlong : ∃ n, ∀ s ∈ set, s.length < n := by
    induction set with
    | nil => exact ⟨0, by simp⟩
    | cons s set ih =>
        obtain ⟨n, hn⟩ := ih
        refine ⟨max n (s.length + 1), fun s' hs' => ?_⟩
        rcases List.mem_cons.mp hs' with rfl | hs'
        · omega
        · have := hn s' hs'
          omega
  obtain ⟨n, hn⟩ := hlong
  refine ⟨_, normalize_padded lower text n, fun hmem => ?_⟩
  have hlt := hn _ hmem
  rw [String.length_append, String.length_ofList, List.length_replicate] at hlt
  omega

/-- **Completeness of echo detection.** Right after a text is remembered every text with
the same normalization is an echo of it, exactly when the tracker did not already hold the
text without its normalized key. -/
theorem has_after_remember_iff (lower : String → String) (capacity : ℕ)
    (calls : List EchoCall) (text : String) :
    (∀ text', normalize lower text' = normalize lower text →
      (((run lower (new capacity) calls).remember lower text).has lower text').1 = true) ↔
    (text ∈ (run lower (new capacity) calls).set →
      normKey lower text ∈ (run lower (new capacity) calls).set) := by
  generalize run lower (new capacity) calls = t
  constructor
  · intro hall hheld
    obtain ⟨text', hsame, hunlisted⟩ := exists_unlisted lower text t.set
    have hhas := has_iff.mp (hall text' hsame)
    rw [remember, if_pos hheld, normKey_eq, hsame, ← normKey_eq] at hhas
    exact hhas.resolve_left hunlisted
  · intro hheld text' hsame
    have hkey : normKey lower text ∈ (t.remember lower text).set := by
      unfold remember
      split
      · rename_i hmem
        exact hheld hmem
      · exact mem_insertEntry _ _
    rw [has_iff, normKey_eq lower text', hsame, ← normKey_eq]
    exact Or.inr hkey

/-- A differently spaced echo consumes the normalized key alone, and remembering the
message again does not bring the key back. -/
theorem remember_misses_echo :
    normalize id "a  b" = normalize id "a b" ∧
    (((run id (new 100) [.remember "a b", .has "a  b"]).remember id "a b").has id "a  b").1 =
      false := by
  decide

end EchoTracker

end Oclaw.AgentCore
