import Oclaw.Lib.Delimited
import Oclaw.Lib.HashMap
import Oclaw.Lib.Utf8

/-!
# Inbound deduplication

`crates/auto-reply/src/debounce.rs`: a message is skipped while the table has an entry under
its key, the digest of its sender, a bar and its body. The digest is a parameter, taken to
tell different bytes apart. What remains is the bar: two messages whose joined texts are the
same, cut at different bars, have one key.
-/

namespace Oclaw.AutoReply.Debounce

open Oclaw.Lib

/-! ## §1  The table -/

/-- A call of `should_skip`. -/
structure Inbound : Type where
  body : String
  sender : String
  nowMs : ℕ

structure InboundDebounce : Type where
  seen : HashMap String ℕ
  ttlMs : ℕ

namespace InboundDebounce

def new (ttlMs : ℕ) : InboundDebounce := ⟨∅, ttlMs⟩

/-- `saturating_sub` is the subtraction of natural numbers. -/
def cleanupStale (d : InboundDebounce) (nowMs : ℕ) : InboundDebounce :=
  { d with seen := d.seen.retain (fun _ ts => nowMs - ts < d.ttlMs) }

/-- The bytes are hashed in three pieces; `sha256` gives the hexadecimal digits. -/
def hashKey (sha256 : List UInt8 → String) (body sender : String) : String :=
  sha256 (utf8 sender.toList ++ utf8 "|".toList ++ utf8 body.toList)

/-- Whether the message is skipped, and the table behind the call. -/
def shouldSkip (sha256 : List UInt8 → String) (d : InboundDebounce) (m : Inbound) :
    Bool × InboundDebounce :=
  let d := d.cleanupStale m.nowMs
  let key := hashKey sha256 m.body m.sender
  if (d.seen.lookup key).isSome then (true, d)
  else (false, { d with seen := d.seen.insert key m.nowMs })

end InboundDebounce

open InboundDebounce

section Run

variable (sha256 : List UInt8 → String) (ttlMs : ℕ)

/-- A sequence of calls, with a log of their answers. -/
def run (calls : List Inbound) : InboundDebounce × List (Inbound × Bool) :=
  calls.foldl (fun x m => ((shouldSkip sha256 x.1 m).2, x.2 ++ [(m, (shouldSkip sha256 x.1 m).1)]))
    (.new ttlMs, [])

/-- Whether a message is skipped behind some others. -/
def skips (before : List Inbound) (m : Inbound) : Bool :=
  (shouldSkip sha256 (run sha256 ttlMs before).1 m).1

/-- The calls that were accepted. -/
def accepted (calls : List Inbound) : List Inbound :=
  ((run sha256 ttlMs calls).2.filter (fun x => !x.2)).map Prod.fst

/-- Those of them less than `ttlMs` ago. -/
def acceptedWithin (calls : List Inbound) (nowMs : ℕ) : List Inbound :=
  (accepted sha256 ttlMs calls).filter (fun a => nowMs - a.nowMs < ttlMs)

/-! ## §2  What deduplication should do -/

/-- **Exactness.** Skipped are the messages of which the sender and the body were accepted
together within the window. -/
def Exact (before : List Inbound) (m : Inbound) : Prop :=
  skips sha256 ttlMs before m = true ↔
    ∃ a ∈ acceptedWithin sha256 ttlMs before m.nowMs, a.sender = m.sender ∧ a.body = m.body

/-- **Isolation.** The messages of other senders do not matter. -/
def Isolated (before : List Inbound) (m : Inbound) : Prop :=
  skips sha256 ttlMs before m =
    skips sha256 ttlMs (before.filter (fun a => a.sender = m.sender)) m

/-- The sender, the bar and the body of both messages are one text, with the bar at two
different places. -/
def RecutMessage (a m : Inbound) : Prop :=
  Recut '|' a.sender.toList a.body.toList m.sender.toList m.body.toList

/-- A message is recut while the other cut of its text is remembered. -/
def Clashes (before : List Inbound) (m : Inbound) : Prop :=
  ∃ a ∈ acceptedWithin sha256 ttlMs before m.nowMs, RecutMessage a m

/-- No message of a sequence is recut while the other cut of its text is remembered. -/
def ClashFree (calls : List Inbound) : Prop :=
  ∀ before m after, calls = before ++ m :: after → ¬ Clashes sha256 ttlMs before m

end Run

/-- The calls come in the order of their times. -/
def InOrder (calls : List Inbound) : Prop := calls.Pairwise (fun a b => a.nowMs ≤ b.nowMs)

/-! ## §3  Keys -/

section

variable {sha256 : List UInt8 → String} {ttlMs nowMs : ℕ} {calls before after : List Inbound}
variable {a m : Inbound} {d : InboundDebounce} {k : String}

def Inbound.key (sha256 : List UInt8 → String) (m : Inbound) : String :=
  hashKey sha256 m.body m.sender

theorem utf8_injective : Function.Injective utf8 :=
  Function.LeftInverse.injective fromUtf8Lossy_utf8

theorem utf8_append (cs ds : List Char) : utf8 (cs ++ ds) = utf8 cs ++ utf8 ds :=
  List.flatMap_append

/-- **Keys collide only by recutting.** -/
theorem key_eq_iff (hinj : Function.Injective sha256) :
    a.key sha256 = m.key sha256 ↔
      (a.sender = m.sender ∧ a.body = m.body) ∨ RecutMessage a m := by
  have hjoin : ∀ x : Inbound, x.key sha256 =
      sha256 (utf8 (x.sender.toList ++ '|' :: x.body.toList)) := by
    intro x
    have hbar : x.sender.toList ++ '|' :: x.body.toList =
        x.sender.toList ++ "|".toList ++ x.body.toList := by simp
    rw [hbar, utf8_append, utf8_append]
    rfl
  rw [hjoin, hjoin, hinj.eq_iff, utf8_injective.eq_iff, joined_eq_iff, String.toList_inj,
    String.toList_inj, RecutMessage]

theorem RecutMessage.sender_ne (h : RecutMessage a m) : a.sender ≠ m.sender :=
  fun heq => Recut.ne h (congrArg String.toList heq)

/-! ## §4  One call -/

theorem run_concat :
    run sha256 ttlMs (before ++ [m]) = ((shouldSkip sha256 (run sha256 ttlMs before).1 m).2,
      (run sha256 ttlMs before).2 ++ [(m, skips sha256 ttlMs before m)]) := by
  simp [run, skips]

theorem accepted_concat :
    accepted sha256 ttlMs (before ++ [m]) = accepted sha256 ttlMs before ++
      (if skips sha256 ttlMs before m then [] else [m]) := by
  unfold accepted
  rw [run_concat, List.filter_append, List.map_append]
  cases skips sha256 ttlMs before m <;> rfl

theorem accepted_sublist : (accepted sha256 ttlMs calls).Sublist calls := by
  induction calls using List.reverseRecOn with
  | nil => exact List.Sublist.refl _
  | append_singleton calls m ih =>
      rw [accepted_concat]
      apply ih.append
      split
      · exact List.nil_sublist _
      · exact List.Sublist.refl _

/-- What a table remembers of a key at a time. -/
def remembered (d : InboundDebounce) (nowMs : ℕ) (k : String) : Option ℕ :=
  (d.seen.lookup k).filter (fun ts => nowMs - ts < d.ttlMs)

theorem shouldSkip_fst :
    (shouldSkip sha256 d m).1 = (remembered d m.nowMs (m.key sha256)).isSome := by
  have hclean : (d.cleanupStale m.nowMs).seen.lookup (m.key sha256) =
      remembered d m.nowMs (m.key sha256) := HashMap.lookup_retain _
  rw [← hclean, shouldSkip]
  show (if _ then _ else _ : Bool × InboundDebounce).1 = _
  rw [← Inbound.key]
  split
  · rename_i hfound
    exact hfound.symm
  · rename_i hnew
    exact (Bool.not_eq_true _ ▸ hnew).symm

theorem shouldSkip_ttlMs : (shouldSkip sha256 d m).2.ttlMs = d.ttlMs := by
  unfold shouldSkip
  simp only
  split <;> rfl

/-- An entry that is dropped now would not be remembered later. -/
theorem remembered_cleanupStale (h : m.nowMs ≤ nowMs) :
    remembered (d.cleanupStale m.nowMs) nowMs k = remembered d nowMs k := by
  show Option.filter _ ((d.seen.retain _).lookup k) = _
  rw [HashMap.lookup_retain, Option.filter_filter, remembered]
  congr 1
  funext ts
  show (decide (m.nowMs - ts < d.ttlMs) && decide (nowMs - ts < d.ttlMs)) = _
  by_cases hts : nowMs - ts < d.ttlMs
  · have hearlier : m.nowMs - ts < d.ttlMs := by omega
    simp [hts, hearlier]
  · simp [hts]

/-- **Spec of a call**, at any later time. -/
theorem remembered_shouldSkip (h : m.nowMs ≤ nowMs) :
    remembered (shouldSkip sha256 d m).2 nowMs k =
      if (shouldSkip sha256 d m).1 = false ∧ k = m.key sha256 then
        (some m.nowMs).filter (fun ts => nowMs - ts < d.ttlMs)
      else remembered d nowMs k := by
  unfold shouldSkip
  simp only
  split
  · rw [if_neg (by simp)]
    exact remembered_cleanupStale h
  · show Option.filter _ (AList.lookup k ((d.cleanupStale m.nowMs).seen.insert _ _)) = _
    rw [HashMap.lookup_insert_eq]
    by_cases hk : k = hashKey sha256 m.body m.sender
    · rw [if_pos hk, if_pos ⟨rfl, hk⟩]
      rfl
    · rw [if_neg hk, if_neg (fun h => hk h.2)]
      exact remembered_cleanupStale h

/-! ## §5  A sequence of calls -/

theorem run_ttlMs : (run sha256 ttlMs calls).1.ttlMs = ttlMs := by
  induction calls using List.reverseRecOn with
  | nil => rfl
  | append_singleton calls m ih => rw [run_concat, shouldSkip_ttlMs, ih]

/-- What is within the window later is within it now. -/
theorem acceptedWithin_mono (h : m.nowMs ≤ nowMs)
    (ha : a ∈ acceptedWithin sha256 ttlMs calls nowMs) :
    a ∈ acceptedWithin sha256 ttlMs calls m.nowMs := by
  obtain ⟨hmem, hwin⟩ := List.mem_filter.mp ha
  have hlater : nowMs - a.nowMs < ttlMs := of_decide_eq_true hwin
  exact List.mem_filter.mpr ⟨hmem, decide_eq_true (by omega)⟩

/-- **The invariant.** At any time from the last call on, the table remembers of a key the
accepted calls with that key that are still within the window; there is at most one. -/
theorem remembered_eq (horder : InOrder calls) (nowMs : ℕ) (hnow : ∀ a ∈ calls, a.nowMs ≤ nowMs)
    (k : String) :
    (remembered (run sha256 ttlMs calls).1 nowMs k).toList =
      ((acceptedWithin sha256 ttlMs calls nowMs).filter (fun a => a.key sha256 = k)).map
        Inbound.nowMs := by
  induction calls using List.reverseRecOn generalizing nowMs k with
  | nil => rfl
  | append_singleton calls m ih =>
      obtain ⟨horder', -, hlast⟩ := List.pairwise_append.mp horder
      have hbefore : ∀ a ∈ calls, a.nowMs ≤ m.nowMs := fun a ha => hlast a ha m (by simp)
      have hm : m.nowMs ≤ nowMs := hnow m (by simp)
      have hlater := ih horder' nowMs (fun a ha => hnow a (List.mem_append_left _ ha)) k
      rw [run_concat, remembered_shouldSkip hm, acceptedWithin, accepted_concat, ← skips,
        List.filter_append, List.filter_append, List.map_append, ← acceptedWithin, run_ttlMs]
      cases hskip : skips sha256 ttlMs calls m with
      | true =>
          rw [if_neg (by simp), hlater]
          simp
      | false =>
          by_cases hk : k = m.key sha256
          · -- nothing is remembered of the key, so no accepted call within the window has it
            have hnone : remembered (run sha256 ttlMs calls).1 m.nowMs (m.key sha256) = none :=
              Option.isNone_iff_eq_none.mp
                (Option.isSome_eq_false_iff.mp (shouldSkip_fst.symm.trans hskip))
            have hempty := ih horder' m.nowMs hbefore (m.key sha256)
            rw [hnone, Option.toList_none, eq_comm, List.map_eq_nil_iff, List.filter_eq_nil_iff]
              at hempty
            have hfree : (acceptedWithin sha256 ttlMs calls nowMs).filter
                (fun a => a.key sha256 = k) = [] :=
              List.filter_eq_nil_iff.mpr (fun a ha => hk ▸ hempty a (acceptedWithin_mono hm ha))
            rw [if_pos ⟨rfl, hk⟩, hfree]
            by_cases hwin : nowMs - m.nowMs < ttlMs <;> simp [Option.filter, hwin, hk]
          · rw [if_neg (fun h => hk h.2), hlater]
            simp [Ne.symm hk]

/-- A message is skipped just when an accepted one within the window has its key. -/
theorem skips_iff_key (horder : InOrder before) (hm : ∀ a ∈ before, a.nowMs ≤ m.nowMs) :
    skips sha256 ttlMs before m = true ↔
      ∃ a ∈ acceptedWithin sha256 ttlMs before m.nowMs, a.key sha256 = m.key sha256 := by
  have hinv : (remembered (run sha256 ttlMs before).1 m.nowMs (m.key sha256)).toList =
      ((acceptedWithin sha256 ttlMs before m.nowMs).filter
        (fun a => a.key sha256 = m.key sha256)).map Inbound.nowMs :=
    remembered_eq horder m.nowMs hm _
  have hfound : skips sha256 ttlMs before m = true ↔
      (remembered (run sha256 ttlMs before).1 m.nowMs (m.key sha256)).toList ≠ [] := by
    rw [skips, shouldSkip_fst, Option.isSome_iff_ne_none, ne_eq, ne_eq, Option.toList_eq_nil_iff]
  rw [hfound, hinv, ne_eq, List.map_eq_nil_iff, List.filter_eq_nil_iff]
  simp

/-- **Step.** A message is skipped for a duplicate, or for another cut of its text. -/
theorem skips_iff (hinj : Function.Injective sha256) (horder : InOrder before)
    (hm : ∀ a ∈ before, a.nowMs ≤ m.nowMs) :
    skips sha256 ttlMs before m = true ↔
      (∃ a ∈ acceptedWithin sha256 ttlMs before m.nowMs,
        a.sender = m.sender ∧ a.body = m.body) ∨ Clashes sha256 ttlMs before m := by
  simp only [skips_iff_key horder hm, key_eq_iff hinj, Clashes, and_or_left, exists_or]

/-- Two accepted calls that the window still holds have different keys. -/
theorem key_apart (horder : InOrder before) (hm : ∀ a ∈ before, a.nowMs ≤ m.nowMs)
    {a b : Inbound} (ha : a ∈ acceptedWithin sha256 ttlMs before m.nowMs)
    (hb : b ∈ acceptedWithin sha256 ttlMs before m.nowMs)
    (hkey : a.key sha256 = b.key sha256) : a = b := by
  have hinv : (remembered (run sha256 ttlMs before).1 m.nowMs (b.key sha256)).toList =
      ((acceptedWithin sha256 ttlMs before m.nowMs).filter
        (fun a => a.key sha256 = b.key sha256)).map Inbound.nowMs :=
    remembered_eq horder m.nowMs hm _
  have hone := congrArg List.length hinv
  rw [List.length_map] at hone
  have hle : (remembered (run sha256 ttlMs before).1 m.nowMs (b.key sha256)).toList.length ≤ 1 := by
    cases remembered (run sha256 ttlMs before).1 m.nowMs (b.key sha256) <;> simp
  rw [hone] at hle
  have hmem : ∀ c ∈ acceptedWithin sha256 ttlMs before m.nowMs, c.key sha256 = b.key sha256 →
      c ∈ (acceptedWithin sha256 ttlMs before m.nowMs).filter
        (fun c => c.key sha256 = b.key sha256) :=
    fun c hc hck => List.mem_filter.mpr ⟨hc, decide_eq_true hck⟩
  have ha' := hmem a ha hkey
  have hb' := hmem b hb rfl
  obtain ⟨c, hc⟩ : ∃ c, (acceptedWithin sha256 ttlMs before m.nowMs).filter
      (fun c => c.key sha256 = b.key sha256) = [c] :=
    List.length_eq_one_iff.mp (Nat.le_antisymm hle (List.length_pos_of_mem hb'))
  rw [hc, List.mem_singleton] at ha' hb'
  rw [ha', hb']

/-- **Step.** Exactly the messages that are no other cut of a remembered text are judged
right. -/
theorem exact_iff (hinj : Function.Injective sha256) (horder : InOrder before)
    (hm : ∀ a ∈ before, a.nowMs ≤ m.nowMs) :
    Exact sha256 ttlMs before m ↔ ¬ Clashes sha256 ttlMs before m := by
  have hskips : skips sha256 ttlMs before m = true ↔
      (∃ a ∈ acceptedWithin sha256 ttlMs before m.nowMs,
        a.sender = m.sender ∧ a.body = m.body) ∨ Clashes sha256 ttlMs before m :=
    skips_iff hinj horder hm
  constructor
  · rintro hexact ⟨b, hb, hrecut⟩
    obtain ⟨a, ha, hsame⟩ := hexact.mp (hskips.mpr (.inr ⟨b, hb, hrecut⟩))
    have hab : a = b := key_apart horder hm ha hb
      (((key_eq_iff hinj).mpr (.inl hsame)).trans ((key_eq_iff hinj).mpr (.inr hrecut)).symm)
    exact hrecut.sender_ne (hab ▸ hsame.1)
  · intro hclash
    rw [Exact, hskips, or_iff_left hclash]

/-! ## §6  Other senders -/

/-- Names without a bar are cut off at the first one. -/
theorem not_clashes_of_no_bar (h : ∀ a ∈ before, '|' ∉ a.sender.toList)
    (hm : '|' ∉ m.sender.toList) : ¬ Clashes sha256 ttlMs before m := by
  rintro ⟨a, ha, hrecut⟩
  have hname := h a (accepted_sublist.mem (List.mem_filter.mp ha).1)
  exact not_recut_of_not_mem hname hm _ _ hrecut

/-- Messages of one sender have no two cuts of one text. -/
theorem not_clashes_of_sender (h : ∀ a ∈ before, a.sender = m.sender) :
    ¬ Clashes sha256 ttlMs before m := by
  rintro ⟨a, ha, hrecut⟩
  exact hrecut.sender_ne (h a (accepted_sublist.mem (List.mem_filter.mp ha).1))

theorem ClashFree.of_concat (h : ClashFree sha256 ttlMs (before ++ [m])) :
    ClashFree sha256 ttlMs before ∧ ¬ Clashes sha256 ttlMs before m :=
  ⟨fun pre x post heq => h pre x (post ++ [m]) (by rw [heq]; simp), h before m [] rfl⟩

theorem InOrder.of_concat (h : InOrder (before ++ [m])) :
    InOrder before ∧ ∀ a ∈ before, a.nowMs ≤ m.nowMs := by
  obtain ⟨hbefore, -, hlast⟩ := List.pairwise_append.mp h
  exact ⟨hbefore, fun a ha => hlast a ha m (by simp)⟩

theorem isolated_of_accepted (hinj : Function.Injective sha256) (horder : InOrder before)
    (hm : ∀ a ∈ before, a.nowMs ≤ m.nowMs) (hclash : ¬ Clashes sha256 ttlMs before m)
    (hown : accepted sha256 ttlMs (before.filter (fun a => a.sender = m.sender)) =
      (accepted sha256 ttlMs before).filter (fun a => a.sender = m.sender)) :
    Isolated sha256 ttlMs before m := by
  have hfilter : InOrder (before.filter (fun a => a.sender = m.sender)) :=
    List.Pairwise.sublist List.filter_sublist horder
  have hall := (exact_iff hinj horder hm).mpr hclash
  have hsame : Exact sha256 ttlMs (before.filter (fun a => a.sender = m.sender)) m :=
    (exact_iff hinj hfilter (fun a ha => hm a (List.mem_filter.mp ha).1)).mpr
      (not_clashes_of_sender (fun a ha => of_decide_eq_true (List.mem_filter.mp ha).2))
  rw [Isolated, Bool.eq_iff_iff]
  refine hall.trans (Iff.trans ?_ hsame.symm)
  simp only [acceptedWithin, hown, List.mem_filter, decide_eq_true_eq]
  constructor
  · rintro ⟨a, ⟨ha, hwin⟩, hs, hb⟩
    exact ⟨a, ⟨⟨ha, hs⟩, hwin⟩, hs, hb⟩
  · rintro ⟨a, ⟨⟨ha, -⟩, hwin⟩, hs, hb⟩
    exact ⟨a, ⟨ha, hwin⟩, hs, hb⟩

/-- Of one sender's messages the same ones are accepted with and without the others. -/
theorem accepted_filter (hinj : Function.Injective sha256) (horder : InOrder calls)
    (hfree : ClashFree sha256 ttlMs calls) (sender : String) :
    accepted sha256 ttlMs (calls.filter (fun a => a.sender = sender)) =
      (accepted sha256 ttlMs calls).filter (fun a => a.sender = sender) := by
  induction calls using List.reverseRecOn with
  | nil => rfl
  | append_singleton calls m ih =>
      obtain ⟨horder', hm⟩ := horder.of_concat
      obtain ⟨hfree', hclash⟩ := hfree.of_concat
      have hrest := ih horder' hfree'
      rw [List.filter_append, accepted_concat, List.filter_append, ← hrest]
      by_cases hs : m.sender = sender
      · subst hs
        have hown : [m].filter (fun a => a.sender = m.sender) = [m] := by simp
        rw [hown, accepted_concat, ← isolated_of_accepted hinj horder' hm hclash hrest]
        cases skips sha256 ttlMs calls m <;> simp
      · have hother : [m].filter (fun a => a.sender = sender) = [] := by simp [hs]
        rw [hother, List.append_nil]
        cases skips sha256 ttlMs calls m <;> simp [hs]

/-- **Deduplication is exact, and senders do not suppress each other, if and only if no
message is the text of a remembered message cut at another bar.** -/
theorem should_skip_exact_iff (hinj : Function.Injective sha256) (horder : InOrder calls) :
    (∀ before m after, calls = before ++ m :: after →
      Exact sha256 ttlMs before m ∧ Isolated sha256 ttlMs before m) ↔
    ClashFree sha256 ttlMs calls := by
  have hstep : ∀ {before m after}, calls = before ++ m :: after →
      InOrder before ∧ ∀ a ∈ before, a.nowMs ≤ m.nowMs := by
    rintro before m after rfl
    obtain ⟨hbefore, -, hlast⟩ := List.pairwise_append.mp horder
    exact ⟨hbefore, fun a ha => hlast a ha m (by simp)⟩
  constructor
  · intro h before m after hsplit
    obtain ⟨hbefore, hm⟩ := hstep hsplit
    exact (exact_iff hinj hbefore hm).mp (h before m after hsplit).1
  · intro hfree before m after hsplit
    obtain ⟨hbefore, hm⟩ := hstep hsplit
    have hclash := hfree before m after hsplit
    have hprefree : ClashFree sha256 ttlMs before := fun pre x post heq =>
      hfree pre x (post ++ m :: after) (by rw [hsplit, heq]; simp)
    exact ⟨(exact_iff hinj hbefore hm).mpr hclash,
      isolated_of_accepted hinj hbefore hm hclash (accepted_filter hinj hbefore hprefree m.sender)⟩

/-! ## §7  Two senders with one key -/

instance (calls : List Inbound) : Decidable (InOrder calls) :=
  inferInstanceAs (Decidable (List.Pairwise _ _))

instance (sha256 : List UInt8 → String) (ttlMs : ℕ) (before : List Inbound) (m : Inbound) :
    Decidable (Exact sha256 ttlMs before m) :=
  inferInstanceAs (Decidable (_ ↔ _))

instance (sha256 : List UInt8 → String) (ttlMs : ℕ) (before : List Inbound) (m : Inbound) :
    Decidable (Isolated sha256 ttlMs before m) :=
  inferInstanceAs (Decidable (_ = _))

/-- A digest without collisions that gives the bytes of `a|b|c` their SHA-256. -/
def hexDigest (bytes : List UInt8) : String :=
  if bytes = utf8 "a|b|c".toList then
    "a52dd81bfd5e4e66d96b9f598382f6cbf8c5c3897654e6ae9055e03620fcf38e"
  else String.ofList ('x' :: bytes.map Char.ofUInt8)

theorem hexDigest_injective : Function.Injective hexDigest :=
  injective_of_ne_x (c := 'a') (by simp) (by decide)

/-- `b|c` from `a` is skipped behind `c` from `a|b`. -/
theorem bar_in_sender_suppresses :
    Function.Injective hexDigest ∧ InOrder [⟨"c", "a|b", 1000⟩, ⟨"b|c", "a", 1500⟩] ∧
      ¬ Exact hexDigest 5000 [⟨"c", "a|b", 1000⟩] ⟨"b|c", "a", 1500⟩ ∧
      ¬ Isolated hexDigest 5000 [⟨"c", "a|b", 1000⟩] ⟨"b|c", "a", 1500⟩ :=
  ⟨hexDigest_injective, by decide, by decide, by decide⟩

theorem plain_senders_exact :
    ClashFree hexDigest 5000
        [⟨"hello", "user1", 1000⟩, ⟨"hello", "user2", 1000⟩, ⟨"hello", "user1", 2000⟩] ∧
      ∀ before m after,
        [⟨"hello", "user1", 1000⟩, ⟨"hello", "user2", 1000⟩, ⟨"hello", "user1", 2000⟩] =
          before ++ m :: after →
        Exact hexDigest 5000 before m ∧ Isolated hexDigest 5000 before m := by
  have hfree : ClashFree hexDigest 5000
      [⟨"hello", "user1", 1000⟩, ⟨"hello", "user2", 1000⟩, ⟨"hello", "user1", 2000⟩] := by
    intro before m after hsplit
    have hplain : ∀ a ∈ before ++ m :: after, '|' ∉ a.sender.toList := by
      rw [← hsplit]
      decide
    exact not_clashes_of_no_bar (fun a ha => hplain a (List.mem_append_left _ ha))
      (hplain m (by simp))
  exact ⟨hfree, (should_skip_exact_iff hexDigest_injective (by decide)).mpr hfree⟩

end

end Oclaw.AutoReply.Debounce
