import Oclaw.Gateway.AnnounceFlow

/-!
# Rounds without an overflow

As long as no item is pushed out of a queue during a round, and its drop policy does not
change, the queue loses nothing: a round removes the items that it chose, it forgets the
dropped ones that it reported, and the queue is never given up with something in it.
-/

namespace Oclaw.Gateway.Announce

open Oclaw.Lib

variable {stamp : ℤ → Option String} {w : World} {a a' : Lines} {key : String}
  {queue : QueueState} {st : Stage} {item : QueueItem} {settings : QueueSettings}
  {nowMs : ℤ} {sent : Bool} {delivered : Delivered} {p : Payload} {policy : DropPolicy}
  {e : ℤ × Event} {tr pre mid post : List (ℤ × Event)} {o : Outcome} {n : ℕ}

/-- No item of this queue is pushed out while one of its rounds is open. -/
def RoundsCalm (key : String) (tr : List (ℤ × Event)) : Prop :=
  ∀ before e after, tr = before ++ e :: after →
    ∀ chosen told pre mid, Round key before chosen told pre mid → e.2.pushedOut key = []

/-- The drop policy that an item brings along. -/
def Event.policy? (key : String) : Event → Option DropPolicy
  | .enqueue k _ policy _ _ => if k = key then some policy else none
  | _ => none

def PolicyKept (key : String) (policy : DropPolicy) (tr : List (ℤ × Event)) : Prop :=
  ∀ e ∈ tr, ∀ d ∈ e.2.policy? key, d = policy

theorem RoundsCalm.of_append (h : RoundsCalm key (tr ++ post)) : RoundsCalm key tr := by
  rintro before x after rfl chosen told pre mid hround
  exact h before x (after ++ post) (by simp) chosen told pre mid hround

theorem PolicyKept.of_append (h : PolicyKept key policy (tr ++ post)) :
    PolicyKept key policy tr :=
  fun x hx => h x (List.mem_append_left _ hx)

/-! ## §1  What the operations note -/

theorem dropLoop_dropPolicy : (QueueState.dropLoop n queue).dropPolicy = queue.dropPolicy := by
  induction n generalizing queue with
  | zero => rfl
  | succ n ih =>
      cases hitems : queue.items with
      | nil => simp [QueueState.dropLoop, hitems, ih]
      | cons dropped items =>
          simp only [QueueState.dropLoop, hitems, ih]
          split <;> simp

/-- Nothing is noted under another policy than `summarize`. -/
theorem dropLoop_droppedCount (h : queue.dropPolicy ≠ .summarize) :
    (QueueState.dropLoop n queue).droppedCount = queue.droppedCount := by
  induction n generalizing queue with
  | zero => rfl
  | succ n ih =>
      cases hitems : queue.items with
      | nil => simp [QueueState.dropLoop, hitems, ih h]
      | cons dropped items =>
          simp only [QueueState.dropLoop, hitems, h, if_false]
          exact ih h

theorem makeRoom_dropPolicy : queue.makeRoom.dropPolicy = queue.dropPolicy := by
  unfold QueueState.makeRoom
  by_cases hfull : queue.cap ≤ queue.items.length
  · cases hpolicy : queue.dropPolicy <;> simp [hfull, hpolicy, dropLoop_dropPolicy]
  · simp [hfull]

theorem makeRoom_droppedCount (queue : QueueState) (h : queue.dropPolicy ≠ .summarize) :
    queue.makeRoom.droppedCount = queue.droppedCount := by
  unfold QueueState.makeRoom
  by_cases hfull : queue.cap ≤ queue.items.length
  · cases hpolicy : queue.dropPolicy with
    | old => simp [hfull, dropLoop_droppedCount h]
    | new => simp [hfull]
    | summarize => exact absurd hpolicy h
  · simp [hfull]

theorem enqueue_dropPolicy :
    (queue.enqueue item settings nowMs).1.dropPolicy = settings.dropPolicy := by
  unfold QueueState.enqueue
  by_cases hrefuses : (queue.configure settings nowMs).refuses = true
  · simp [hrefuses]
  · simp [hrefuses, makeRoom_dropPolicy]

theorem enqueue_droppedCount_of_policy (h : settings.dropPolicy ≠ .summarize) :
    (queue.enqueue item settings nowMs).1.droppedCount = queue.droppedCount := by
  unfold QueueState.enqueue
  by_cases hrefuses : (queue.configure settings nowMs).refuses = true
  · simp [hrefuses]
  · simp only [hrefuses, makeRoom_droppedCount (queue.configure settings nowMs) h]
    rfl

/-- With items there, one of them is chosen. -/
theorem drainWork_of_items (stamp : ℤ → Option String) (h : queue.items ≠ []) :
    ∃ p, queue.drainWork stamp = some (.single p) ∨ queue.drainWork stamp = some (.collect p) := by
  have hsingle : ∃ p, queue.singleWork = .single p := by
    obtain ⟨item, hhead⟩ := Option.ne_none_iff_exists'.mp (mt List.head?_eq_none_iff.mp h)
    simp [QueueState.singleWork, hhead]
  obtain ⟨p, hp⟩ := hsingle
  unfold QueueState.drainWork
  rw [if_neg (by simp [QueueState.isDone_of_items h])]
  split
  · split
    · exact ⟨p, Or.inl (by rw [hp])⟩
    · obtain ⟨last, hlast⟩ := Option.ne_none_iff_exists'.mp (mt List.getLast?_eq_none_iff.mp h)
      simp only [hlast]
      exact ⟨_, Or.inr rfl⟩
  · exact ⟨p, Or.inl (by rw [hp])⟩

/-! ## §2  A calm line -/

/-- There are items, dropped ones are noted under `summarize` only, and a round under way
reports all of them. -/
structure Line.Calm (policy : DropPolicy) (l : Line) : Prop where
  items : l.1.items ≠ []
  kept : l.1.dropPolicy = policy
  noted : policy ≠ .summarize → l.1.droppedCount = 0
  stage : l.2 ≠ .idle
  reports : ∀ p, l.2.payload? = some p →
    (p.clearSummary = true ↔ policy = .summarize ∧ l.1.droppedCount ≠ 0)

theorem Payload.deliver_ne_idle : p.deliver ≠ .idle := by
  unfold Payload.deliver
  split <;> simp

theorem stage_ne_idle_of_payload (h : st.payload? = some p) : st ≠ .idle := by
  rintro rfl
  cases h

/-- The end of a round. Under `summarize` all that was noted is forgotten, and otherwise
nothing was noted. -/
theorem consume_calm (h : Line.Calm policy (queue, .settle p true)) :
    (queue.consume p).droppedCount = 0 := by
  have hreports := h.reports p rfl
  unfold QueueState.consume
  by_cases hclear : p.clearSummary = true
  · simp [hclear]
  · simp only [hclear]
    by_cases hpolicy : policy = .summarize
    · by_contra hcount
      exact hclear (hreports.mpr ⟨hpolicy, hcount⟩)
    · exact h.noted hpolicy

theorem consume_dropPolicy : (queue.consume p).dropPolicy = queue.dropPolicy := by
  unfold QueueState.consume
  dsimp only
  split <;> rfl

theorem drainStep_calm {q : QueueState} {s : Stage} (h : Line.Calm policy (queue, st))
    (hlive : Line.Live (queue, st))
    (ho : drainStep stamp key (some queue) delivered nowMs sent st = o)
    (hq : o.queue = some q) (hs : o.stage = some s) : Line.Calm policy (q, s) := by
  -- a stage with a payload keeps the queue, and the payload is old or has just been made
  have carry {p : Payload} (hp : s.payload? = some p) : Line.Calm policy (q, s) := by
    obtain ⟨rfl, hcase⟩ := drainStep_payload ho hq hs hp
    refine ⟨h.items, h.kept, h.noted, stage_ne_idle_of_payload hp, ?_⟩
    intro p' hp'
    obtain rfl : p = p' := Option.some.inj (hp.symm.trans hp')
    rcases hcase with ⟨hchosen, -, -⟩ | ⟨hbefore, -, -⟩
    · rw [← h.kept]
      exact hchosen.clear
    · exact h.reports p hbefore
  have plain {s : Stage} (hidle : s ≠ .idle) (hnone : s.payload? = none) :
      Line.Calm policy (queue, s) := by
    refine ⟨h.items, h.kept, h.noted, hidle, fun p hp => ?_⟩
    rw [hnone] at hp
    cases hp
  cases st with
  | head =>
      have hpending : queue.isDone = false := hlive.pending
      subst ho
      simp only [drainStep, hpending, Bool.false_eq_true, if_false] at hq hs
      cases hq
      cases hs
      exact plain (by simp) rfl
  | relock => exact absurd rfl hlive.stage
  | idle => exact absurd rfl h.stage
  | choose waitMs =>
      obtain ⟨p, hwork | hwork⟩ := drainWork_of_items stamp h.items
      · refine carry (p := p) ?_
        subst ho
        simp only [drainStep, chooseStep, hwork, Option.some.injEq] at hs
        rw [← hs, Payload.ask_payload?]
      · refine carry (p := p) ?_
        subst ho
        simp only [drainStep, chooseStep, hwork, Option.some.injEq] at hs
        rw [← hs, Payload.ask_payload?]
  | settle p sendOk =>
      subst ho
      simp only [drainStep, settleStep] at hq hs
      split at hq
      · cases hq
      · rename_i hdone
        rw [if_neg hdone] at hs
        cases hq
        cases hs
        cases sendOk with
        | false => exact ⟨h.items, h.kept, h.noted, by simp, fun p hp => by cases hp⟩
        | true =>
            have hcount := consume_calm h
            refine ⟨?_, ?_, fun _ => hcount, by simp, fun p hp => by cases hp⟩
            · intro hnil
              have hempty : (queue.consume p).items = [] := hnil
              refine hdone ?_
              show (queue.consume p).isDone = true
              rw [QueueState.isDone, hempty, hcount]
              rfl
            · exact consume_dropPolicy.trans h.kept
  | sweep p =>
      refine carry (p := p) ?_
      subst ho
      cases hs
      rfl
  | look p =>
      refine carry (p := p) ?_
      subst ho
      simp only [drainStep] at hs
      split at hs
      · cases hs
        rfl
      · cases hs
        exact Payload.deliver_payload?
  | send p =>
      refine carry (p := p) ?_
      subst ho
      cases hs
      cases sent
      · rfl
      · exact Payload.note_payload?
  | markSweep p =>
      refine carry (p := p) ?_
      subst ho
      cases hs
      rfl
  | mark p =>
      refine carry (p := p) ?_
      subst ho
      cases hs
      rfl

theorem calm_step (hrun : Runs (Lines.Step stamp) .init tr a)
    (h : ∀ l, a.line key = some l → Line.Calm policy l) (hcalm : RoundsCalm key (tr ++ [e]))
    (hpolicy : PolicyKept key policy (tr ++ [e])) (hstep : Lines.Step stamp a e a') :
    ∀ l, a'.line key = some l → Line.Calm policy l := by
  have hasked {d : DropPolicy} (hd : e.2.policy? key = some d) : d = policy :=
    hpolicy e (by simp) d hd
  intro l hline
  cases hstep with
  | @opened k item settings nowMs hnone =>
      by_cases hk : key = k
      · subst hk
        rw [Lines.set_line_self] at hline
        cases hline
        have hd : settings.dropPolicy = policy := hasked (by simp [enqueueEvent, Event.policy?])
        have hoverflow : ((QueueState.new settings).configure settings nowMs).overflow = 0 :=
          QueueState.overflow_of_take (by simp [QueueState.new])
        refine ⟨QueueState.enqueue_items_ne_nil, enqueue_dropPolicy.trans hd, fun _ => ?_,
          by simp, fun p hp => by cases hp⟩
        exact QueueState.enqueue_droppedCount hoverflow
      · rw [Lines.set_line_of_ne hk] at hline
        exact h l hline
  | @joined k item settings nowMs queue st hsome =>
      by_cases hk : key = k
      · subst hk
        rw [Lines.set_line_self] at hline
        cases hline
        have hl := h _ hsome
        have hd : settings.dropPolicy = policy := hasked (by simp [enqueueEvent, Event.policy?])
        refine ⟨QueueState.enqueue_items_ne_nil, enqueue_dropPolicy.trans hd, ?_, hl.stage, ?_⟩
        · intro hne
          exact (enqueue_droppedCount_of_policy (hd ▸ hne)).trans (hl.noted hne)
        · intro p hp
          -- the round is open, so nothing was pushed out
          obtain ⟨chosen, told, pre, mid, hround, -⟩ :=
            Lines.tracked_of_run hrun key queue st p hsome hp
          have hnone := hcalm tr _ [] rfl chosen told pre mid hround
          have hoverflow : (queue.configure settings nowMs).overflow = 0 :=
            QueueState.overflow_of_take (by simpa [enqueueEvent, Event.pushedOut] using hnone)
          rw [QueueState.enqueue_droppedCount hoverflow]
          exact hl.reports p hp
      · rw [Lines.set_line_of_ne hk] at hline
        exact h l hline
  | @run k nowMs sent queue st o hsome ho =>
      by_cases hk : key = k
      · subst hk
        rw [Lines.set_line_self] at hline
        obtain ⟨q, hq, hline⟩ := Option.bind_eq_some_iff.mp hline
        obtain ⟨s, hs, rfl⟩ := Option.map_eq_some_iff.mp hline
        exact drainStep_calm (h _ hsome) (Lines.live_of_run hrun hsome) ho hq hs
      · rw [Lines.set_line_of_ne hk] at hline
        exact h l hline

theorem Lines.calm_of_run (run : Runs (Lines.Step stamp) .init tr a) :
    RoundsCalm key tr → PolicyKept key policy tr →
      ∀ l, a.line key = some l → Line.Calm policy l := by
  induction run with
  | nil =>
      intro _ _ l hline
      cases hline
  | snoc run hstep ih =>
      intro hcalm hpolicy
      exact calm_step run (ih hcalm.of_append hpolicy.of_append) hcalm hpolicy hstep

/-- A queue is given up from two places of the loop only. -/
theorem remove_inv {lost : List QueueItem}
    (hstep : Lines.Step stamp a (nowMs, .remove key lost) a') :
    ∃ queue st, a.line key = some (queue, st) ∧ (st = .relock ∨ st = .idle) := by
  generalize he : (nowMs, Event.remove key lost) = e at hstep
  cases hstep with
  | opened hnone => cases he
  | joined hsome => cases he
  | @run k now sent queue st o hsome ho =>
      have hev : o.event = .remove key lost := (congrArg Prod.snd he).symm
      obtain ⟨hkey, -⟩ := drainStep_items ho
      rw [hev] at hkey
      obtain rfl : key = k := hkey
      subst ho
      refine ⟨queue, st, hsome, ?_⟩
      cases st with
      | relock => exact Or.inl rfl
      | idle => exact Or.inr rfl
      | head =>
          simp only [drainStep] at hev
          split at hev <;> cases hev
      | choose waitMs =>
          simp only [drainStep, chooseStep] at hev
          split at hev <;> cases hev
      | look p =>
          simp only [drainStep] at hev
          split at hev <;> cases hev
      | settle p sendOk =>
          simp only [drainStep, settleStep, settleEvent] at hev
          cases sendOk <;> (split at hev <;> cases hev)
      | _ => cases hev

/-- If the cap pushes nothing out while a round is open and the drop policy stays the
same, then each round removes what it chose and had delivered, and forgets the dropped
items that it reported; the queue never has to be given up, and is never left with
notes only. -/
theorem rounds_exact (run : Runs (World.Step stamp) .init tr w) (hcalm : RoundsCalm key tr)
    (hpolicy : PolicyKept key policy tr) :
    (∀ before nowMs popped forgotten post,
      tr = before ++ (nowMs, .settle key true popped forgotten) :: post →
      ∃ told pre mid, Round key before popped told pre mid ∧ forgotten = told ∧
        ∃ x ∈ mid, ∃ item ∈ popped, x.2.arrives key = some item) ∧
    (∀ e ∈ tr, ∀ lost, e.2 ≠ .remove key lost) ∧
    ∀ queue, w.queues.lookup key = some queue → queue.items ≠ [] := by
  obtain ⟨a, hrun, hserves, -⟩ := World.lines_of_run run
  refine ⟨?_, ?_, ?_⟩
  · rintro before nowMs popped forgotten post rfl
    obtain ⟨chosen, told, pre, mid, hround, harrives, hpopped, hforgotten⟩ :=
      Lines.settled_counted hrun
    obtain ⟨now, hsplit⟩ := hround.split
    -- every step inside the round comes at a time at which it is open
    have hnone : pushedOutLog key mid = [] := by
      refine List.flatMap_eq_nil_iff.mpr fun x hx => ?_
      obtain ⟨mid₁, mid₂, rfl⟩ := List.append_of_mem hx
      refine hcalm (pre ++ (now, .choose key chosen told) :: mid₁) x
        (mid₂ ++ (nowMs, .settle key true popped forgotten) :: post) (by simp [hsplit])
        chosen told pre mid₁ ⟨⟨now, rfl⟩, fun y hy => hround.quiet y (by simp [hy]),
          hround.nonempty, hround.front⟩
    have hmore : acceptedLog key before = acceptedLog key pre ++
        acceptedLog key ((now, .choose key chosen told) :: mid) := by
      rw [hsplit, acceptedLog_append]
    have hlength : chosen.length ≤
        ((acceptedLog key pre).drop (leftLog key pre).length).length := by
      have hle := congrArg List.length hround.front
      rw [List.length_take] at hle
      omega
    have hleft : (leftLog key pre).length ≤ (acceptedLog key pre).length := by
      obtain ⟨b, -, hpre, -⟩ : ∃ b b', Runs (Lines.Step stamp) .init pre b ∧
          Lines.Step stamp b (now, .choose key chosen told) b' := by
        rw [hsplit] at hrun
        exact Runs.step_at (by simpa using hrun)
      rw [Lines.conserved hpre, List.length_append]
      omega
    have hsame : popped = chosen := by
      rw [hpopped, hnone, List.length_nil, Nat.add_zero, hmore, List.drop_append_of_le_length hleft,
        List.take_append_of_le_length hlength]
      exact hround.front.symm
    subst hsame
    exact ⟨told, pre, mid, hround, hforgotten hnone, harrives⟩
  · rintro ⟨nowMs, ev⟩ hmem lost rfl
    obtain ⟨before, post, rfl⟩ := List.append_of_mem hmem
    obtain ⟨b, b', hpre, hstep⟩ := hrun.step_at
    obtain ⟨queue, st, hline, hst⟩ := remove_inv hstep
    rcases hst with rfl | rfl
    · exact (Lines.live_of_run hpre hline).stage rfl
    · exact (Lines.calm_of_run hpre hcalm.of_append hpolicy.of_append _ hline).stage rfl
  · intro queue hlookup
    rw [hserves.queue] at hlookup
    obtain ⟨l, hline, rfl⟩ := Option.map_eq_some_iff.mp hlookup
    exact (Lines.calm_of_run hrun hcalm hpolicy l hline).items

theorem RoundsCalm.of_none (h : ∀ e ∈ tr, e.2.pushedOut key = []) : RoundsCalm key tr := by
  rintro before x after rfl chosen told pre mid -
  exact h x (by simp)

theorem rounds_exact_sample :
    ∃ tr w, Runs (World.Step (fun _ => none)) .init tr w ∧ tr.length = 9 ∧
      (∀ before nowMs popped forgotten post,
        tr = before ++ (nowMs, .settle "main" true popped forgotten) :: post →
        ∃ told pre mid, Round "main" before popped told pre mid ∧ forgotten = told ∧
          ∃ x ∈ mid, ∃ item ∈ popped, x.2.arrives "main" = some item) ∧
      (∀ e ∈ tr, ∀ lost, e.2 ≠ .remove "main" lost) ∧
      ∀ queue, w.queues.lookup "main" = some queue → queue.items ≠ [] := by
  have hrun := runs_of_exec_isSome sampleTurns sampleTurns_run
  refine ⟨_, _, hrun, by decide, rounds_exact hrun ?_
    (?_ : PolicyKept _ .summarize _)⟩
  · exact RoundsCalm.of_none (by decide)
  · unfold PolicyKept
    decide

end Oclaw.Gateway.Announce
