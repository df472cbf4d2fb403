import Oclaw.Lib.Firsts
import Oclaw.Lib.Transition

/-!
# The pipeline of block replies

`crates/auto-reply/src/block_pipeline.rs`: replies are buffered until the next flush, and a
reply with the key of an earlier one is dropped. The key joins some of the fields.
-/

namespace Oclaw.AutoReply

open Oclaw.Lib

/-! ## §1  The pipeline -/

/-- `V` is the type of the channel data. -/
structure ReplyPayload (V : Type) : Type where
  text : Option String := none
  mediaUrl : Option String := none
  mediaUrls : Option (List String) := none
  replyToId : Option String := none
  replyToCurrent : Bool := false
  audioAsVoice : Bool := false
  isError : Bool := false
  channelData : Option V := none
deriving DecidableEq

section Model

variable {V : Type}

def payloadKey (p : ReplyPayload V) : String :=
  let textPart := p.text.getD ""
  let mediaPart := p.mediaUrl.getD ""
  let replyPart := p.replyToId.getD ""
  s!"{textPart}|{mediaPart}|{replyPart}"

structure BlockReplyPipeline (V : Type) : Type where
  buffer : List (ReplyPayload V)
  seenKeys : List String
  timeoutMs : ℕ
  aborted : Bool
  didStream : Bool

namespace BlockReplyPipeline

def new (V : Type) (timeoutMs : ℕ) : BlockReplyPipeline V := ⟨[], [], timeoutMs, false, false⟩

/-- Duplicates are dropped. -/
def enqueue (s : BlockReplyPipeline V) (payload : ReplyPayload V) : BlockReplyPipeline V :=
  if s.aborted then s
  else
    let key := payloadKey payload
    if s.seenKeys.contains key then s
    else { s with seenKeys := key :: s.seenKeys, buffer := s.buffer ++ [payload] }

def flush (s : BlockReplyPipeline V) (force : Bool) :
    List (ReplyPayload V) × BlockReplyPipeline V :=
  if s.aborted then ([], s)
  else if force || !s.buffer.isEmpty then (s.buffer, { s with didStream := true, buffer := [] })
  else ([], s)

def stop (s : BlockReplyPipeline V) : BlockReplyPipeline V := { s with aborted := true }

end BlockReplyPipeline

namespace BlockPipeline

inductive Call (V : Type) : Type where
  | enqueue (payload : ReplyPayload V)
  | flush (force : Bool)
  | stop

/-- A call with what it returned. -/
structure Event (V : Type) : Type where
  call : Call V
  returned : List (ReplyPayload V)

def next (s : BlockReplyPipeline V) : Call V → Option (Event V × BlockReplyPipeline V)
  | .enqueue payload => some (⟨.enqueue payload, []⟩, s.enqueue payload)
  | .flush force => some (⟨.flush force, (s.flush force).1⟩, (s.flush force).2)
  | .stop => some (⟨.stop, []⟩, s.stop)

abbrev Step (V : Type) : BlockReplyPipeline V → Event V → BlockReplyPipeline V → Prop :=
  Induced next

/-! ## §2  What should be delivered -/

def Event.isStop (ev : Event V) : Bool :=
  match ev.call with
  | .stop => true
  | _ => false

def Event.isFlush (ev : Event V) : Bool :=
  match ev.call with
  | .flush _ => true
  | _ => false

def Event.payload (ev : Event V) : Option (ReplyPayload V) :=
  match ev.call with
  | .enqueue payload => some payload
  | _ => none

/-- The replies enqueued before the pipeline is stopped. -/
def enqueued (tr : List (Event V)) : List (ReplyPayload V) :=
  (tr.takeWhile (fun ev => !ev.isStop)).filterMap Event.payload

def returned (tr : List (Event V)) : List (ReplyPayload V) := tr.flatMap (·.returned)

/-- The fields that are delivered. -/
structure Delivery (V : Type) : Type where
  text : Option String
  mediaUrl : Option String
  mediaUrls : Option (List String)
  replyToId : Option String
  channelData : Option V
deriving DecidableEq

def delivered (p : ReplyPayload V) : Delivery V :=
  ⟨p.text, p.mediaUrl, p.mediaUrls, p.replyToId, p.channelData⟩

/-- Of the replies enqueued those that differ from all before them are returned once and in
their order, or they are in the buffer, and a flush leaves none behind. -/
structure Delivers [DecidableEq V] (tr : List (Event V)) (s : BlockReplyPipeline V) : Prop where
  once : returned tr ++ s.buffer = firstsBy delivered (enqueued tr)
  flushed : ∀ tr₁ ev tr₂, tr = tr₁ ++ ev :: tr₂ → (∀ e ∈ tr₁, e.isStop = false) →
    ev.isFlush = true → returned (tr₁ ++ [ev]) = firstsBy delivered (enqueued tr₁)

/-! ## §3  Steps and runs -/

variable {s s' : BlockReplyPipeline V} {tr : List (Event V)} {ev : Event V} {timeoutMs : ℕ}

/-- The state behind a run. -/
structure Inv (tr : List (Event V)) (s : BlockReplyPipeline V) : Prop where
  aborted : s.aborted = tr.any Event.isStop
  seen : ∀ key, key ∈ s.seenKeys ↔ key ∈ (enqueued tr).map payloadKey
  kept : returned tr ++ s.buffer = firstsBy payloadKey (enqueued tr)

theorem returned_concat : returned (tr ++ [ev]) = returned tr ++ ev.returned := by
  simp [returned]

theorem enqueued_cons (ev : Event V) (tr : List (Event V)) :
    enqueued (ev :: tr) = if ev.isStop then [] else ev.payload.toList ++ enqueued tr := by
  rw [enqueued, List.takeWhile_cons]
  cases ev.isStop with
  | true => rfl
  | false =>
      cases hpay : ev.payload with
      | none => simp [hpay, enqueued]
      | some payload => simp [hpay, enqueued]

theorem enqueued_concat : enqueued (tr ++ [ev]) =
    enqueued tr ++ if tr.any Event.isStop then [] else ev.payload.toList := by
  induction tr with
  | nil =>
      rw [List.nil_append, enqueued_cons]
      cases hstop : ev.isStop with
      | false => simp [enqueued]
      | true =>
          have hnone : ev.payload = none := by
            rw [Event.isStop] at hstop
            rw [Event.payload]
            split at hstop
            · rename_i hcall
              rw [hcall]
            · cases hstop
          simp [enqueued, hnone]
  | cons e tr ih =>
      rw [List.cons_append, enqueued_cons, enqueued_cons, List.any_cons, ih]
      cases e.isStop with
      | true => rfl
      | false => simp

theorem inv_new : Inv ([] : List (Event V)) (BlockReplyPipeline.new V timeoutMs) :=
  ⟨rfl, fun key => by simp [BlockReplyPipeline.new, enqueued], rfl⟩

/-- What a step does to the state. -/
theorem step_cases (h : Step V s ev s') :
    (∃ payload, ev.call = .enqueue payload ∧ ev.returned = [] ∧ s' = s.enqueue payload) ∨
      (∃ force, ev.call = .flush force ∧ ev.returned = (s.flush force).1 ∧
        s' = (s.flush force).2) ∨
      ev.call = .stop ∧ ev.returned = [] ∧ s' = s.stop := by
  obtain ⟨call, hnext⟩ := h
  cases call with
  | enqueue payload =>
      cases hnext
      exact Or.inl ⟨payload, rfl, rfl, rfl⟩
  | flush force =>
      cases hnext
      exact Or.inr (Or.inl ⟨force, rfl, rfl, rfl⟩)
  | stop =>
      cases hnext
      exact Or.inr (Or.inr ⟨rfl, rfl, rfl⟩)

/-- A flush of a pipeline that was not stopped returns the buffer and leaves none. -/
theorem flush_of_not_aborted (h : s.aborted = false) (force : Bool) :
    (s.flush force).1 = s.buffer ∧ (s.flush force).2.buffer = [] := by
  rw [BlockReplyPipeline.flush, h]
  cases force with
  | true => exact ⟨rfl, rfl⟩
  | false =>
      cases hbuffer : s.buffer with
      | nil => exact ⟨rfl, hbuffer⟩
      | cons p ps => simp

theorem flush_frame (force : Bool) : (s.flush force).2.aborted = s.aborted ∧
    (s.flush force).2.seenKeys = s.seenKeys := by
  rw [BlockReplyPipeline.flush]
  split
  · exact ⟨rfl, rfl⟩
  · split
    · exact ⟨rfl, rfl⟩
    · exact ⟨rfl, rfl⟩

theorem flush_of_aborted (h : s.aborted = true) (force : Bool) : s.flush force = ([], s) := by
  rw [BlockReplyPipeline.flush, if_pos h]

theorem enqueued_concat_of_none (hpay : ev.payload = none) :
    enqueued (tr ++ [ev]) = enqueued tr := by
  rw [enqueued_concat, hpay]
  split
  · exact List.append_nil _
  · exact List.append_nil _

/-- A step that changes nothing, and counts for nothing. -/
theorem Inv.idle (h : Inv tr s) (hstop : ev.isStop = false)
    (henq : enqueued (tr ++ [ev]) = enqueued tr) (hret : ev.returned = []) :
    Inv (tr ++ [ev]) s := by
  refine ⟨by simp [hstop, h.aborted], ?_, ?_⟩
  · rw [henq]
    exact h.seen
  · rw [henq, returned_concat, hret, List.append_nil]
    exact h.kept

/-- A reply with the key of an earlier one is dropped. -/
theorem Inv.repeated {payload : ReplyPayload V} (h : Inv tr s) (hstop : ev.isStop = false)
    (henq : enqueued (tr ++ [ev]) = enqueued tr ++ [payload]) (hret : ev.returned = [])
    (hold : payloadKey payload ∈ s.seenKeys) : Inv (tr ++ [ev]) s := by
  refine ⟨by simp [hstop, h.aborted], fun key => ?_, ?_⟩
  · rw [henq, List.map_append, List.mem_append, h.seen]
    constructor
    · exact Or.inl
    · rintro (hmem | hmem)
      · exact hmem
      · rw [List.map_singleton, List.mem_singleton] at hmem
        rw [hmem, ← h.seen]
        exact hold
  · rw [henq, firstsBy_concat, if_pos ((h.seen _).mp hold), returned_concat, hret, List.append_nil,
      List.append_nil]
    exact h.kept

/-- Any other reply is buffered. -/
theorem Inv.added {payload : ReplyPayload V} (h : Inv tr s) (hstop : ev.isStop = false)
    (henq : enqueued (tr ++ [ev]) = enqueued tr ++ [payload]) (hret : ev.returned = [])
    (hnew : payloadKey payload ∉ s.seenKeys) :
    Inv (tr ++ [ev]) { s with
      seenKeys := payloadKey payload :: s.seenKeys, buffer := s.buffer ++ [payload] } := by
  refine ⟨by simp [hstop, h.aborted], fun key => ?_, ?_⟩
  · rw [henq, List.map_append, List.mem_append, List.map_singleton, List.mem_singleton, ← h.seen]
    exact List.mem_cons.trans or_comm
  · rw [henq, firstsBy_concat, if_neg (fun hmem => hnew ((h.seen _).mpr hmem)), returned_concat,
      hret, List.append_nil, ← h.kept, List.append_assoc]

theorem Inv.enqueue {payload : ReplyPayload V} (h : Inv tr s) (hcall : ev.call = .enqueue payload)
    (hret : ev.returned = []) : Inv (tr ++ [ev]) (s.enqueue payload) := by
  have hstop : ev.isStop = false := by rw [Event.isStop, hcall]
  have hpay : ev.payload = some payload := by rw [Event.payload, hcall]
  cases hab : s.aborted with
  | true =>
      have henq : enqueued (tr ++ [ev]) = enqueued tr := by
        rw [enqueued_concat, ← h.aborted, hab, if_pos rfl, List.append_nil]
      rw [BlockReplyPipeline.enqueue, if_pos hab]
      exact h.idle hstop henq hret
  | false =>
      have henq : enqueued (tr ++ [ev]) = enqueued tr ++ [payload] := by
        rw [enqueued_concat, ← h.aborted, hab, if_neg Bool.false_ne_true, hpay]
        rfl
      by_cases hold : payloadKey payload ∈ s.seenKeys
      · have hsame : s.enqueue payload = s := by simp [BlockReplyPipeline.enqueue, hab, hold]
        rw [hsame]
        exact h.repeated hstop henq hret hold
      · have hnew : s.enqueue payload = { s with
            seenKeys := payloadKey payload :: s.seenKeys, buffer := s.buffer ++ [payload] } := by
          simp [BlockReplyPipeline.enqueue, hab, hold]
        rw [hnew]
        exact h.added hstop henq hret hold

theorem Inv.flush {force : Bool} (h : Inv tr s) (hcall : ev.call = .flush force)
    (hret : ev.returned = (s.flush force).1) : Inv (tr ++ [ev]) (s.flush force).2 := by
  have hstop : ev.isStop = false := by rw [Event.isStop, hcall]
  have henq : enqueued (tr ++ [ev]) = enqueued tr :=
    enqueued_concat_of_none (by rw [Event.payload, hcall])
  cases hab : s.aborted with
  | true =>
      rw [flush_of_aborted hab] at hret ⊢
      exact h.idle hstop henq hret
  | false =>
      obtain ⟨hframe, hkeys⟩ := @flush_frame _ s force
      obtain ⟨hall, hbuffer⟩ := flush_of_not_aborted hab force
      refine ⟨?_, ?_, ?_⟩
      · rw [hframe]
        simp [hstop, h.aborted]
      · rw [hkeys, henq]
        exact h.seen
      · rw [henq, returned_concat, hret, hall, hbuffer, List.append_nil]
        exact h.kept

theorem Inv.stop (h : Inv tr s) (hcall : ev.call = .stop) (hret : ev.returned = []) :
    Inv (tr ++ [ev]) s.stop := by
  have hstop : ev.isStop = true := by rw [Event.isStop, hcall]
  have henq : enqueued (tr ++ [ev]) = enqueued tr :=
    enqueued_concat_of_none (by rw [Event.payload, hcall])
  refine ⟨by simp [hstop, BlockReplyPipeline.stop], ?_, ?_⟩
  · rw [henq]
    exact h.seen
  · rw [henq, returned_concat, hret, List.append_nil]
    exact h.kept

theorem Inv.step (h : Inv tr s) (hstep : Step V s ev s') : Inv (tr ++ [ev]) s' := by
  rcases step_cases hstep with ⟨payload, hcall, hret, rfl⟩ | ⟨force, hcall, hret, rfl⟩ |
    ⟨hcall, hret, rfl⟩
  · exact h.enqueue hcall hret
  · exact h.flush hcall hret
  · exact h.stop hcall hret

theorem inv_of_runs (run : Runs (Step V) (BlockReplyPipeline.new V timeoutMs) tr s) : Inv tr s :=
  run.invariant inv_new fun _ h hstep => h.step hstep

/-! ## §4  Delivery -/

theorem payloadKey_of_delivered {p q : ReplyPayload V} (h : delivered p = delivered q) :
    payloadKey p = payloadKey q := by
  obtain ⟨htext, hmedia, -, hreply, -⟩ := Delivery.mk.inj h
  rw [payloadKey, payloadKey, htext, hmedia, hreply]

/-- What is enqueued first stays first. -/
theorem enqueued_append (tr tr' : List (Event V)) :
    ∃ rest, enqueued (tr ++ tr') = enqueued tr ++ rest := by
  induction tr' using List.reverseRecOn with
  | nil => exact ⟨[], by simp⟩
  | append_singleton tr' ev ih =>
      obtain ⟨rest, hrest⟩ := ih
      rw [← List.append_assoc, enqueued_concat, hrest, List.append_assoc]
      exact ⟨_, rfl⟩

theorem Event.isFlush_iff : ev.isFlush = true ↔ ∃ force, ev.call = .flush force := by
  rw [Event.isFlush]
  split
  · rename_i force hcall
    exact iff_of_true rfl ⟨force, hcall⟩
  · rename_i hcall
    exact iff_of_false (by simp) fun ⟨force, hflush⟩ => hcall force hflush

theorem delivers_iff_keepsNew [DecidableEq V]
    (run : Runs (Step V) (BlockReplyPipeline.new V timeoutMs) tr s) :
    Delivers tr s ↔ KeepsNew delivered payloadKey (enqueued tr) := by
  have hfiner : ∀ p q : ReplyPayload V, delivered p = delivered q → payloadKey p = payloadKey q :=
    fun _ _ => payloadKey_of_delivered
  constructor
  · intro h
    exact (firstsBy_eq_iff hfiner).mp ((inv_of_runs run).kept.symm.trans h.once)
  · intro hnew
    refine ⟨(inv_of_runs run).kept.trans ((firstsBy_eq_iff hfiner).mpr hnew), ?_⟩
    rintro tr₁ ev tr₂ rfl hstop hflush
    obtain ⟨s₁, run₁, run₂⟩ := run.split
    obtain ⟨s₂, hstep, -⟩ := run₂.uncons
    obtain ⟨rest, hrest⟩ := enqueued_append tr₁ (ev :: tr₂)
    have hbefore : KeepsNew delivered payloadKey (enqueued tr₁) :=
      KeepsNew.of_append (hrest ▸ hnew)
    have hinv := inv_of_runs run₁
    have hopen : s₁.aborted = false := by
      rw [hinv.aborted, List.any_eq_false]
      intro e he
      simp [hstop e he]
    obtain ⟨force, hcall⟩ := Event.isFlush_iff.mp hflush
    rcases step_cases hstep with ⟨payload, hcall', -⟩ | ⟨force', -, hret, -⟩ | ⟨hcall', -⟩
    · rw [hcall] at hcall'
      cases hcall'
    · rw [returned_concat, hret, (flush_of_not_aborted hopen force').1, hinv.kept]
      exact (firstsBy_eq_iff hfiner).mpr hbefore
    · rw [hcall] at hcall'
      cases hcall'

/-- **Block replies.** All replies that are new are delivered just when none of them has the
key of an earlier one. -/
theorem delivers_iff [DecidableEq V]
    (run : Runs (Step V) (BlockReplyPipeline.new V timeoutMs) tr s) :
    Delivers tr s ↔ ∀ before p after, enqueued tr = before ++ p :: after →
      (∃ q ∈ before, payloadKey q = payloadKey p) → ∃ q ∈ before, delivered q = delivered p := by
  rw [delivers_iff_keepsNew run]
  exact keepsNew_iff

end BlockPipeline

end Model

/-! ## §5  Two runs -/

open BlockPipeline

/-- A repeated reply is delivered once. -/
theorem delivers_iff_repeated :
    ∃ tr s, Runs (Step ℕ) (BlockReplyPipeline.new ℕ 0) tr s ∧
      (returned tr).map (·.text) = [some "one", some "two"] ∧ Delivers tr s := by
  have run : Runs (Step ℕ) (BlockReplyPipeline.new ℕ 0) _ _ :=
    runs_of_exec_isSome [.enqueue { text := some "one" }, .flush false,
      .enqueue { text := some "one" }, .enqueue { text := some "two" }, .flush true]
      (by decide)
  refine ⟨_, _, run, by decide, (delivers_iff run).mpr (keepsNew_iff.mp ?_)⟩
  exact (firstsBy_eq_iff fun _ _ => payloadKey_of_delivered).mp (by decide)

/-- Two pictures without a text: the second one is lost. -/
theorem not_delivers_pictures :
    ∃ tr s, Runs (Step ℕ) (BlockReplyPipeline.new ℕ 0) tr s ∧
      (enqueued tr).map (·.mediaUrls) = [some ["a.png"], some ["b.png"]] ∧
      (returned tr).map (·.mediaUrls) = [some ["a.png"]] ∧ ¬ Delivers tr s := by
  have run : Runs (Step ℕ) (BlockReplyPipeline.new ℕ 0) _ _ :=
    runs_of_exec_isSome [.enqueue { mediaUrls := some ["a.png"] },
      .enqueue { mediaUrls := some ["b.png"] }, .flush false] (by decide)
  refine ⟨_, _, run, by decide, by decide, fun h => ?_⟩
  exact absurd h.once (by decide)

end Oclaw.AutoReply
