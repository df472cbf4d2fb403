import Oclaw.Gateway.AnnounceFlow

/-!
# One delivery of each run

The queues share the record of what was delivered. A task looks there before it sends,
and enters the run after it has sent, in steps of their own. Within one queue the next
look comes after that entry, so a run that was sent is not tried again by the same queue
until its entry has grown older than the record keeps entries, whatever the other queues
do to the record in between.
-/

namespace Oclaw.Gateway.Announce

open Oclaw.Lib

variable {stamp : ℤ → Option String} {w : World} {a a' : Lines} {key k : String}
  {queue : QueueState} {st s : Stage} {nowMs at' : ℤ} {sent : Bool} {delivered : Delivered}
  {p : Payload} {e : ℤ × Event} {tr post : List (ℤ × Event)} {o : Outcome}

/-- The clock does not go back, and it is past the epoch. -/
structure Ticking (tr : List (ℤ × Event)) : Prop where
  sorted : (tr.map Prod.fst).Pairwise (· ≤ ·)
  pos : ∀ x ∈ tr, 0 < x.1

theorem Ticking.of_append (h : Ticking (tr ++ post)) : Ticking tr where
  sorted := by
    have hsorted := h.sorted
    rw [List.map_append, List.pairwise_append] at hsorted
    exact hsorted.1
  pos x hx := h.pos x (List.mem_append_left _ hx)

theorem Ticking.le_last (h : Ticking (tr ++ e :: post)) {x : ℤ × Event} (hx : x ∈ tr) :
    x.1 ≤ e.1 := by
  have hsorted := h.sorted
  rw [List.map_append, List.pairwise_append] at hsorted
  exact hsorted.2.2 _ (List.mem_map_of_mem hx) _ (by simp)

/-! ## §1  The record -/

/-- A sweep removes entries that are too old, and no others. -/
theorem lookup_sweepDelivered (nowMs : ℤ) (h : delivered.lookup k = some at') (hpos : 0 < at') :
    (sweepDelivered delivered nowMs).lookup k = some at' ∨ at' + deliveredTtlMs < nowMs := by
  by_cases hfresh : satSub nowMs at' ≤ deliveredTtlMs
  · refine Or.inl ?_
    rw [sweepDelivered, HashMap.lookup_retain, h]
    simp [hpos, hfresh]
  · refine Or.inr ?_
    unfold satSub deliveredTtlMs at hfresh
    unfold deliveredTtlMs
    omega

/-- What a task does to the record. -/
theorem drainStep_delivered (ho : drainStep stamp key (some queue) delivered nowMs sent st = o) :
    o.delivered = delivered ∨ o.delivered = sweepDelivered delivered nowMs ∨
      ∃ p, st = .mark p ∧ o.delivered = delivered.insert p.key nowMs := by
  subst ho
  cases st with
  | head =>
      simp only [drainStep]
      split <;> exact Or.inl rfl
  | choose waitMs =>
      simp only [drainStep, chooseStep]
      split <;> exact Or.inl rfl
  | look p =>
      simp only [drainStep]
      split <;> exact Or.inl rfl
  | settle p sendOk =>
      simp only [drainStep, settleStep]
      split <;> exact Or.inl rfl
  | sweep p => exact Or.inr (Or.inl rfl)
  | markSweep p => exact Or.inr (Or.inl rfl)
  | mark p => exact Or.inr (Or.inr ⟨p, rfl, rfl⟩)
  | _ => exact Or.inl rfl

/-- The task is about to enter this run. -/
def Stage.entering (k : String) : Stage → Prop
  | .markSweep p => p.key = k
  | .mark p => p.key = k
  | _ => False

/-- The delivery at `t` is about to be entered, is in the record, or is too old for it. -/
def Kept (key k : String) (t : ℤ) (tr : List (ℤ × Event)) (a : Lines) : Prop :=
  (∃ queue st, a.line key = some (queue, st) ∧ st.entering k) ∨
    (∃ at', a.delivered.lookup k = some at' ∧ t ≤ at') ∨
    ∃ x ∈ tr, t + deliveredTtlMs < x.1

/-- Every delivery is kept, and a task that is about to send finds none that is younger. -/
structure Recorded (tr : List (ℤ × Event)) (a : Lines) : Prop where
  kept : ∀ {t key p}, (t, Event.send key p true) ∈ tr → p.key ≠ "" → Kept key p.key t tr a
  sending : ∀ {t key p q queue}, (t, Event.send key p true) ∈ tr → p.key ≠ "" →
    a.line key = some (queue, .send q) → q.key = p.key →
    ∃ x ∈ tr, t + deliveredTtlMs < x.1

theorem ne_of_isEmpty (h : k ≠ "") : k.isEmpty = false := by
  simpa using h

/-- A successful send is entered next. -/
theorem drainStep_sent (ho : drainStep stamp key (some queue) delivered nowMs sent st = o)
    (hev : o.event = .send k p true) (hp : p.key ≠ "") :
    k = key ∧ st = .send p ∧ o.queue = some queue ∧ o.stage = some (.markSweep p) ∧
      o.delivered = delivered := by
  subst ho
  cases st with
  | send p' =>
      simp only [drainStep, Event.send.injEq] at hev
      obtain ⟨rfl, rfl, rfl⟩ := hev
      exact ⟨rfl, rfl, rfl, by simp [drainStep, Payload.note, hp], rfl⟩
  | head =>
      simp only [drainStep] at hev
      split at hev <;> cases hev
  | choose waitMs =>
      simp only [drainStep, chooseStep] at hev
      split at hev <;> cases hev
  | look p' =>
      simp only [drainStep] at hev
      split at hev <;> cases hev
  | settle p' sendOk =>
      simp only [drainStep, settleStep, settleEvent] at hev
      cases sendOk <;> (split at hev <;> cases hev)
  | _ => cases hev

/-- The send of a run with a key comes right after a look that did not find it. -/
theorem drainStep_sending (ho : drainStep stamp key (some queue) delivered nowMs sent st = o)
    (hs : o.stage = some (.send p)) (hp : p.key ≠ "") :
    st = .look p ∧ delivered.lookup p.key = none ∧ o.delivered = delivered := by
  subst ho
  cases st with
  | look p' =>
      simp only [drainStep] at hs ⊢
      split at hs
      · cases hs
      · rename_i hnew
        rw [if_neg hnew]
        simp only [Option.some.injEq, Payload.deliver] at hs
        split at hs
        · cases hs
          exact ⟨rfl, by simpa using hnew, rfl⟩
        · cases hs
  | choose waitMs =>
      simp only [drainStep, chooseStep] at hs
      have hask {p' : Payload} (h : p'.ask = .send p) : False := by
        unfold Payload.ask at h
        split at h
        · rename_i hempty
          unfold Payload.deliver at h
          split at h
          · cases h
            exact hp (by simpa using hempty)
          · cases h
        · cases h
      split at hs
      · cases hs
      · exact (hask (Option.some.inj hs)).elim
      · exact (hask (Option.some.inj hs)).elim
      · cases hs
  | head =>
      simp only [drainStep] at hs
      split at hs <;> cases hs
  | send p' =>
      cases sent
      · cases hs
      · simp only [drainStep, if_true, Option.some.injEq, Payload.note] at hs
        split at hs <;> cases hs
  | settle p' sendOk =>
      simp only [drainStep, settleStep] at hs
      split at hs <;> cases hs
  | _ => cases hs

/-- A task that is about to enter a run goes on to do so. -/
theorem drainStep_entering (ho : drainStep stamp key (some queue) delivered nowMs sent st = o)
    (hst : st.entering k) :
    (o.queue = some queue ∧ ∃ s, o.stage = some s ∧ s.entering k) ∨
      o.delivered.lookup k = some nowMs := by
  subst ho
  cases st with
  | markSweep p => exact Or.inl ⟨rfl, _, rfl, hst⟩
  | mark p =>
      obtain rfl : p.key = k := hst
      exact Or.inr (AList.lookup_insert _)
  | _ => exact hst.elim

/-! ## §2  Every step keeps the record -/

theorem Kept.older (h : Kept key k nowMs tr a) {t : ℤ} (ht : t ≤ nowMs) : Kept key k t tr a := by
  rcases h with h | ⟨at', hat, hle⟩ | ⟨x, hx, hlt⟩
  · exact Or.inl h
  · exact Or.inr (Or.inl ⟨at', hat, Int.le_trans ht hle⟩)
  · exact Or.inr (Or.inr ⟨x, hx, by omega⟩)

theorem kept_step {t : ℤ} (h : Kept key k t tr a) (hpos : 0 < t) (hle : t ≤ e.1)
    (hstep : Lines.Step stamp a e a') : Kept key k t (tr ++ [e]) a' := by
  rcases h with ⟨queue, st, hline, hentering⟩ | ⟨at', hat, hage⟩ | ⟨x, hx, hlt⟩
  · cases hstep with
    | @opened j item settings nowMs hnone =>
        have hne : key ≠ j := by
          rintro rfl
          rw [hnone] at hline
          cases hline
        exact Or.inl ⟨queue, st, by rw [Lines.set_line_of_ne hne, hline], hentering⟩
    | @joined j item settings nowMs queue' st' hsome =>
        by_cases hj : key = j
        · subst hj
          rw [hline] at hsome
          cases hsome
          exact Or.inl ⟨_, st, Lines.set_line_self, hentering⟩
        · exact Or.inl ⟨queue, st, by rw [Lines.set_line_of_ne hj, hline], hentering⟩
    | @run j nowMs sent queue' st' o hsome ho =>
        by_cases hj : key = j
        · subst hj
          rw [hline] at hsome
          cases hsome
          rcases drainStep_entering ho hentering with ⟨hq, s, hs, hgoes⟩ | hentered
          · exact Or.inl ⟨queue, s, by simp [hq, hs], hgoes⟩
          · exact Or.inr (Or.inl ⟨nowMs, hentered, hle⟩)
        · exact Or.inl ⟨queue, st, by rw [Lines.set_line_of_ne hj, hline], hentering⟩
  · cases hstep with
    | opened hnone => exact Or.inr (Or.inl ⟨at', hat, hage⟩)
    | joined hsome => exact Or.inr (Or.inl ⟨at', hat, hage⟩)
    | @run j nowMs sent queue st o hsome ho =>
        rcases drainStep_delivered ho with hd | hd | ⟨p, -, hd⟩
        · exact Or.inr (Or.inl ⟨at', by rw [← hat, ← hd]; rfl, hage⟩)
        · rcases lookup_sweepDelivered nowMs hat (Int.lt_of_lt_of_le hpos hage) with hstill | hold
          · exact Or.inr (Or.inl ⟨at', by rw [← hstill, ← hd]; rfl, hage⟩)
          · exact Or.inr (Or.inr ⟨(nowMs, o.event), by simp, by
              show t + deliveredTtlMs < nowMs
              omega⟩)
        · have hlookup : (a.set j (o.queue.bind (fun q => o.stage.map (fun s => (q, s))))
              o.delivered).delivered.lookup k = if k = p.key then some nowMs else some at' := by
            show o.delivered.lookup k = _
            rw [hd, HashMap.lookup_insert_eq, hat]
          by_cases hk : k = p.key
          · exact Or.inr (Or.inl ⟨nowMs, by rw [hlookup, if_pos hk], hle⟩)
          · exact Or.inr (Or.inl ⟨at', by rw [hlookup, if_neg hk], hage⟩)
  · exact Or.inr (Or.inr ⟨x, List.mem_append_left _ hx, hlt⟩)

/-- A delivery that has just been made. -/
theorem kept_new (tr : List (ℤ × Event))
    (hstep : Lines.Step stamp a (nowMs, .send key p true) a') (hp : p.key ≠ "") :
    Kept key p.key nowMs tr a' ∧ ∀ queue q, a'.line key ≠ some (queue, .send q) := by
  generalize he : (nowMs, Event.send key p true) = e at hstep
  cases hstep with
  | opened hnone => cases he
  | joined hsome => cases he
  | @run j now sent queue st o hsome ho =>
      have hev : o.event = .send key p true := (congrArg Prod.snd he).symm
      obtain ⟨rfl, rfl, hq, hs, -⟩ := drainStep_sent ho hev hp
      have hline : (a.set key (o.queue.bind (fun q => o.stage.map (fun s => (q, s))))
          o.delivered).line key = some (queue, .markSweep p) := by
        simp [hq, hs]
      refine ⟨Or.inl ⟨queue, _, hline, rfl⟩, ?_⟩
      intro queue' q hsend
      rw [hline] at hsend
      cases hsend

theorem recorded_step (h : Recorded tr a) (hticking : Ticking (tr ++ [e]))
    (hstep : Lines.Step stamp a e a') : Recorded (tr ++ [e]) a' where
  kept := by
    intro t key p hmem hp
    rcases List.mem_append.mp hmem with hmem | hmem
    · have hpos : 0 < t := hticking.pos _ (List.mem_append_left _ hmem)
      exact kept_step (h.kept hmem hp) hpos (hticking.le_last hmem) hstep
    · rw [← List.mem_singleton.mp hmem] at hstep
      exact (kept_new _ hstep hp).1
  sending := by
    intro t key p q queue hmem hp hline hq
    have later (hex : ∃ x ∈ tr, t + deliveredTtlMs < x.1) :
        ∃ x ∈ tr ++ [e], t + deliveredTtlMs < x.1 := by
      obtain ⟨x, hx, hlt⟩ := hex
      exact ⟨x, List.mem_append_left _ hx, hlt⟩
    rcases List.mem_append.mp hmem with hpast | hnew
    · cases hstep with
      | @opened j item settings nowMs hnone =>
          by_cases hj : key = j
          · subst hj
            rw [Lines.set_line_self] at hline
            cases hline
          · rw [Lines.set_line_of_ne hj] at hline
            exact later (h.sending hpast hp hline hq)
      | @joined j item settings nowMs queue' st' hsome =>
          by_cases hj : key = j
          · subst hj
            rw [Lines.set_line_self] at hline
            cases hline
            exact later (h.sending hpast hp hsome hq)
          · rw [Lines.set_line_of_ne hj] at hline
            exact later (h.sending hpast hp hline hq)
      | @run j nowMs sent queue' st' o hsome ho =>
          by_cases hj : key = j
          · subst hj
            rw [Lines.set_line_self] at hline
            obtain ⟨q', -, hline⟩ := Option.bind_eq_some_iff.mp hline
            obtain ⟨s', hs, hline⟩ := Option.map_eq_some_iff.mp hline
            cases hline
            obtain ⟨rfl, hnone, -⟩ := drainStep_sending ho hs (hq ▸ hp)
            -- the look did not find it, so it is neither in the record nor on its way there
            rcases h.kept hpast hp with ⟨queue'', st'', hline', hentering⟩ | ⟨at', hat, -⟩ | hold
            · rw [hsome] at hline'
              cases hline'
              exact hentering.elim
            · rw [← hq, hnone] at hat
              cases hat
            · exact later hold
          · rw [Lines.set_line_of_ne hj] at hline
            exact later (h.sending hpast hp hline hq)
    · rw [← List.mem_singleton.mp hnew] at hstep
      exact ((kept_new tr hstep hp).2 queue q hline).elim

theorem Lines.recorded_of_run (run : Runs (Lines.Step stamp) .init tr a) :
    Ticking tr → Recorded tr a := by
  induction run with
  | nil =>
      intro _
      constructor <;> (intros; simp_all)
  | snoc run hstep ih =>
      intro hticking
      exact recorded_step (ih hticking.of_append) hticking hstep

theorem send_inv (hstep : Lines.Step stamp a (nowMs, .send key p sent) a') :
    ∃ queue, a.line key = some (queue, .send p) := by
  generalize he : (nowMs, Event.send key p sent) = e at hstep
  cases hstep with
  | opened hnone => cases he
  | joined hsome => cases he
  | @run j now sent' queue st o hsome ho =>
      have hev : o.event = .send key p sent := (congrArg Prod.snd he).symm
      obtain ⟨hkey, -⟩ := drainStep_items ho
      rw [hev] at hkey
      obtain rfl : key = j := hkey
      subst ho
      cases st with
      | send p' =>
          cases hev
          exact ⟨queue, hsome⟩
      | head =>
          simp only [drainStep] at hev
          split at hev <;> cases hev
      | choose waitMs =>
          simp only [drainStep, chooseStep] at hev
          split at hev <;> cases hev
      | look p' =>
          simp only [drainStep] at hev
          split at hev <;> cases hev
      | settle p' sendOk =>
          simp only [drainStep, settleStep, settleEvent] at hev
          cases sendOk <;> (split at hev <;> cases hev)
      | _ => cases hev

/-- After a queue has sent a message for a run, it does not try to send one for the same
run again until more than the time for which deliveries are remembered has passed. -/
theorem send_once {before mid after : List (ℤ × Event)} {t₁ t₂ : ℤ} {p₁ p₂ : Payload}
    (run : Runs (World.Step stamp) .init
      (before ++ (t₁, .send key p₁ true) :: (mid ++ (t₂, .send key p₂ sent) :: after)) w)
    (hticking : Ticking
      (before ++ (t₁, .send key p₁ true) :: (mid ++ (t₂, .send key p₂ sent) :: after)))
    (hkey : p₁.key ≠ "") (hsame : p₂.key = p₁.key) : t₁ + deliveredTtlMs < t₂ := by
  obtain ⟨a, hrun, -⟩ := World.lines_of_run run
  rw [show before ++ (t₁, Event.send key p₁ true) :: (mid ++ (t₂, .send key p₂ sent) :: after) =
    (before ++ (t₁, .send key p₁ true) :: mid) ++ (t₂, .send key p₂ sent) :: after by simp]
    at hrun hticking
  obtain ⟨b, b', hpre, hstep⟩ := hrun.step_at
  obtain ⟨queue, hline⟩ := send_inv hstep
  obtain ⟨x, hx, hlt⟩ := (Lines.recorded_of_run hpre hticking.of_append).sending
    (t := t₁) (by simp) hkey hline hsame
  exact Int.lt_of_lt_of_le hlt (hticking.le_last hx)

/-- A result that is announced a second time after the record has forgotten it. -/
def laterTurns : List Turn :=
  let item : QueueItem :=
    ⟨"run-1", "done", none, 5, "main", some ⟨"telegram", "7", none, none⟩, none⟩
  .enqueue "main" item ⟨.followup, 0, 20, .old⟩ 1000 0 :: List.replicate 8 (.run 0 1001 true) ++
    .enqueue "main" item ⟨.followup, 0, 20, .old⟩ 701000 0 :: List.replicate 8 (.run 0 701001 true)

def laterPayload : Payload :=
  ⟨⟨"run-1", "done", none, 5, "main", some ⟨"telegram", "7", none, none⟩, some "telegram|7||"⟩,
    "done", 1, false⟩

theorem laterTurns_run : (exec (World.next (fun _ => none)) .init laterTurns).isSome = true := by
  decide

theorem send_once_sample :
    ∃ before mid after w, Runs (World.Step (fun _ => none)) .init
        (before ++ (1001, .send "main" laterPayload true) ::
          (mid ++ (701001, .send "main" laterPayload true) :: after)) w ∧
      1001 + deliveredTtlMs < 701001 := by
  have hrun := runs_of_exec_isSome laterTurns laterTurns_run
  have hsplit : ((exec (World.next (fun _ => none)) .init laterTurns).get laterTurns_run).1 =
      (((exec (World.next (fun _ => none)) .init laterTurns).get laterTurns_run).1.take 5) ++
        (1001, .send "main" laterPayload true) ::
          ((((exec (World.next (fun _ => none)) .init laterTurns).get
              laterTurns_run).1.take 14).drop 6 ++
            (701001, .send "main" laterPayload true) ::
              ((exec (World.next (fun _ => none)) .init laterTurns).get
                laterTurns_run).1.drop 15) := by
    decide
  rw [hsplit] at hrun
  refine ⟨_, _, _, _, hrun, send_once hrun ⟨?_, ?_⟩ (by decide) rfl⟩
  · decide
  · decide

end Oclaw.Gateway.Announce
