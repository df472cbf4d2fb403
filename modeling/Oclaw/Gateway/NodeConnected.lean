import Oclaw.Gateway.NodePairing

/-!
# Which nodes are connected

A verification passes exactly if the request that was the last one listed for the node had
been approved and not been rejected, and the token is that of its last approval. A node that
is connected has the record through which it was connected, approved, or a rejection has
taken the record out and has yet to disconnect the node, or was dropped before it could.
-/

namespace Oclaw.Gateway.Nodes

open Oclaw.Lib Oclaw.SetupPairing Oclaw.Gateway.Rpc

/-! ## §1  What a step does -/

/-- The stages behind which something is still to be done about a node's connection. -/
def NodeStage.closing : NodeStage → Bool
  | .unlist .. | .disconnect .. | .connect .. => true
  | _ => false

/-- The stages at which a handler has learned nothing. -/
def NodeStage.plain : NodeStage → Bool
  | .record .. | .list .. | .checkToken .. => false
  | stage => !stage.closing

/-- The acts that no history keeps. -/
def NodeAct.quiet : NodeAct → Bool
  | .internal | .answered _ | .panicked => true
  | _ => false

inductive NodeMove (w : NodeWorld) (t : ℕ) : NodeAct → NodeWorld → Prop where
  | quiet {act : NodeAct} {store : PairingStore} {stage : Option NodeStage} :
      act.quiet = true → (∀ s, w.tasks t = some s → s.closing = false) →
      (∀ s, stage = some s → s.plain = true) →
      NodeMove w t act ({ w with store := store }.put t stage)
  | created {ask : PairAsk} {store : PairingStore} {uuid : String} {now : ℕ} :
      w.tasks t = some (.create ask) → uuid ∉ w.minted →
      NodeMove w t .internal ({ w with store := store, minted := uuid :: w.minted }.put t
        (some (.record (ask.record uuid now))))
  | recorded {entry : NodePairRecord} : w.tasks t = some (.record entry) → w.holder = none →
      NodeMove w t (.recorded entry.requestId entry.nodeId)
        ({ w with pairs := w.pairs.insert entry.requestId entry }.put t (some (.list entry)))
  | listed {entry : NodePairRecord} : w.tasks t = some (.list entry) →
      NodeMove w t (.listed entry.nodeId entry.requestId)
        ({ w with index := w.index.insert entry.nodeId entry.requestId }.put t none)
  | approved {id token : String} {now : ℕ} {entry : NodePairRecord} :
      w.tasks t = some (.approvePair id) → w.holder = none → w.pairs.lookup id = some entry →
      NodeMove w t (.approved id token)
        ({ w with pairs := w.pairs.insert id { entry with
          approved := true
          token := some token
          approvedAtMs := some now } }.put t none)
  | removed {id : String} {entry : NodePairRecord} : w.tasks t = some (.removePair id) →
      w.holder = none → w.pairs.lookup id = some entry →
      NodeMove w t (.removed id entry.nodeId)
        ({ w with pairs := w.pairs.erase id }.put t (some (.unlist id entry.nodeId)))
  | unlisted {id node : String} : w.tasks t = some (.unlist id node) →
      NodeMove w t (.unlisted node)
        ({ w with index := w.index.erase node }.put t (some (.disconnect id node)))
  | disconnected {id node : String} : w.tasks t = some (.disconnect id node) →
      NodeMove w t (.disconnected node)
        ({ w with connected := w.connected.erase node }.put t none)
  | missed {node token : String} : w.tasks t = some (.lookNode node token) →
      w.index.lookup node = none → NodeMove w t (.looked node token none) (w.put t none)
  | looked {node token id : String} : w.tasks t = some (.lookNode node token) →
      w.index.lookup node = some id →
      NodeMove w t (.looked node token (some id)) (w.put t (some (.checkToken node id token)))
  | refused {node token id : String} {e : RpcError} :
      w.tasks t = some (.checkToken node id token) →
      (∀ entry, w.pairs.lookup id = some entry → entry.approved = true →
        entry.token ≠ some token) →
      NodeMove w t (.checked (.error e)) (w.put t none)
  | passed {node token id : String} {now : ℕ} {entry : NodePairRecord} :
      w.tasks t = some (.checkToken node id token) → w.holder = none →
      w.pairs.lookup id = some entry → entry.approved = true → entry.token = some token →
      NodeMove w t (.checked (.ok ()))
        ({ w with
          pairs := w.pairs.insert id { entry with lastConnectedAtMs := some now }
          holder := some t }.put t (some (.connect node id)))
  | connected {node id : String} : w.tasks t = some (.connect node id) →
      NodeMove w t (.connected node id)
        ({ w with connected := insert node w.connected, holder := none }.put t none)
  | dropped {stage : NodeStage} : w.tasks t = some stage →
      NodeMove w t .dropped ({ w.put t none with
        holder := if w.holder = some t then none else w.holder })

section Moves

variable {build : Build} {w w' : NodeWorld} {t : ℕ} {e : NodeEvent} {stage : NodeStage}
  {input : NodeInput} {o : NodeOutcome} {call : NodeCall}

theorem plain_of_parse (h : call.parse = .ok stage) : stage.plain = true := by
  cases call with
  | pairRequest nodeId displayName isRepair =>
      simp only [NodeCall.parse] at h
      cases hnode : requireNodeId nodeId with
      | error e => rw [hnode] at h; cases h
      | ok node => rw [hnode] at h; cases h; rfl
  | pairApprove requestId =>
      simp only [NodeCall.parse] at h
      cases hid : requireRequestId requestId with
      | error e => rw [hid] at h; cases h
      | ok id => rw [hid] at h; cases h; rfl
  | pairReject requestId =>
      simp only [NodeCall.parse] at h
      cases hid : requireRequestId requestId with
      | error e => rw [hid] at h; cases h
      | ok id => rw [hid] at h; cases h; rfl
  | pairVerify nodeId token =>
      simp only [NodeCall.parse] at h
      cases hnode : requireNodeId nodeId with
      | error e => rw [hnode] at h; cases h
      | ok node =>
          cases htoken : requireToken token with
          | error e => rw [hnode, htoken] at h; cases h
          | ok token => rw [hnode, htoken] at h; cases h; rfl

theorem move_of_advance (ht : w.tasks t = some stage)
    (h : w.advance build t input stage = some o) :
    NodeMove w t o.act (o.world.put t o.stage) := by
  have idle : stage.closing = false → ∀ s, w.tasks t = some s → s.closing = false := by
    intro hidle s hs
    rw [ht] at hs
    cases hs
    exact hidle
  cases stage with
  | lookIndex ask =>
      simp only [NodeWorld.advance] at h
      split at h
      · cases h
        exact .quiet rfl (idle rfl) (by rintro _ ⟨⟩; rfl)
      · cases h
        exact .quiet rfl (idle rfl) (by rintro _ ⟨⟩; rfl)
  | checkPending ask id =>
      simp only [NodeWorld.advance] at h
      split at h
      · cases h
      · split at h
        · split at h
          · cases h
            exact .quiet rfl (idle rfl) (by rintro _ ⟨⟩; rfl)
          · cases h
            exact .quiet rfl (idle rfl) (by rintro _ ⟨⟩)
        · cases h
          exact .quiet rfl (idle rfl) (by rintro _ ⟨⟩; rfl)
  | create ask =>
      simp only [NodeWorld.advance] at h
      split at h
      · cases h
      · rename_i hfresh
        split at h
        · cases h
          exact .created ht hfresh
        · cases h
          exact .quiet rfl (idle rfl) (by rintro _ ⟨⟩)
        · cases h
          exact .quiet rfl (idle rfl) (by rintro _ ⟨⟩)
  | record entry =>
      simp only [NodeWorld.advance] at h
      split at h
      · cases h
      · rename_i hfree
        cases h
        exact .recorded ht (by simpa using hfree)
  | list entry =>
      cases h
      exact .listed ht
  | approveStore id =>
      simp only [NodeWorld.advance] at h
      split at h
      · cases h
        exact .quiet rfl (idle rfl) (by rintro _ ⟨⟩)
      · cases h
        exact .quiet rfl (idle rfl) (by rintro _ ⟨⟩; rfl)
  | approvePair id =>
      simp only [NodeWorld.advance] at h
      split at h
      · cases h
      · rename_i hfree
        split at h
        · cases h
          exact .quiet rfl (idle rfl) (by rintro _ ⟨⟩)
        · rename_i entry hentry
          cases h
          exact .approved ht (by simpa using hfree) hentry
  | rejectStore id =>
      simp only [NodeWorld.advance] at h
      split at h
      · cases h
        exact .quiet rfl (idle rfl) (by rintro _ ⟨⟩)
      · cases h
        exact .quiet rfl (idle rfl) (by rintro _ ⟨⟩; rfl)
  | removePair id =>
      simp only [NodeWorld.advance] at h
      split at h
      · cases h
      · rename_i hfree
        split at h
        · cases h
          exact .quiet rfl (idle rfl) (by rintro _ ⟨⟩)
        · rename_i entry hentry
          cases h
          exact .removed ht (by simpa using hfree) hentry
  | unlist id node =>
      cases h
      exact .unlisted ht
  | disconnect id node =>
      cases h
      exact .disconnected ht
  | lookNode node token =>
      simp only [NodeWorld.advance] at h
      split at h
      · rename_i hindex
        cases h
        exact .missed ht hindex
      · rename_i id hindex
        cases h
        exact .looked ht hindex
  | checkToken node id token =>
      simp only [NodeWorld.advance] at h
      split at h
      · cases h
      · rename_i hfree
        split at h
        · rename_i hentry
          cases h
          exact .refused ht (by simp [hentry])
        · rename_i entry hentry
          split at h
          · rename_i happroved
            cases h
            exact .refused ht (by simp [hentry, happroved])
          · rename_i happroved
            split at h
            · rename_i htoken
              cases h
              refine .refused ht ?_
              intro entry' hentry' _
              rw [hentry] at hentry'
              cases hentry'
              exact htoken
            · rename_i htoken
              cases h
              exact .passed ht (by simpa using hfree) hentry (by simpa using happroved)
                (not_not.mp htoken)
  | connect node id =>
      cases h
      exact .connected ht

theorem nodeMove_of_step (h : NodeWorld.Step build w e w') : NodeMove w e.task e.act w' := by
  obtain ⟨turn, h⟩ := h
  cases turn with
  | call t call =>
      simp only [NodeWorld.next] at h
      split at h
      · rename_i hnone
        have hidle : ∀ s, w.tasks t = some s → s.closing = false := by
          intro s hs
          rw [hnone] at hs
          cases hs
        split at h
        · cases h
          have hsame : w.put t none = w := by
            unfold NodeWorld.put
            rw [← hnone, Function.update_eq_self]
          rename_i err _
          have hmove : NodeMove w t (.answered (.error err))
              ({ w with store := w.store }.put t none) :=
            .quiet rfl hidle (by rintro _ ⟨⟩)
          rwa [hsame] at hmove
        · rename_i stage hparse
          cases h
          have hmove : NodeMove w t .internal
              ({ w with store := w.store }.put t (some stage)) :=
            .quiet rfl hidle (by rintro _ ⟨⟩; exact plain_of_parse hparse)
          exact hmove
      · cases h
  | run t input =>
      simp only [NodeWorld.next] at h
      split at h
      · cases h
      · rename_i stage ht
        split at h
        · cases h
        · rename_i o ho
          cases h
          exact move_of_advance ht ho
  | drop t =>
      simp only [NodeWorld.next] at h
      split at h
      · rename_i hsome
        obtain ⟨stage, ht⟩ := Option.isSome_iff_exists.mp hsome
        cases h
        exact .dropped ht
      · cases h

end Moves

/-! ## §2  Histories -/

/-- The request that is listed for a node. -/
def listedOf (node : String) (tr : List NodeEvent) : Option String :=
  tr.foldl (fun listed e =>
    match e.act with
    | .listed n id => if node = n then some id else listed
    | .unlisted n => if node = n then none else listed
    | _ => listed) none

/-- The token that the last approval of a request issued. -/
def issuedOf (id : String) (tr : List NodeEvent) : Option String :=
  tr.foldl (fun issued e =>
    match e.act with
    | .recorded i _ => if id = i then none else issued
    | .approved i token => if id = i then some token else issued
    | .removed i _ => if id = i then none else issued
    | _ => issued) none

/-- The acts that the two histories are about. -/
def NodeAct.moves : NodeAct → Bool
  | .recorded .. | .listed .. | .approved .. | .removed .. | .unlisted _ => true
  | _ => false

/-- A record was made for the request and the node. -/
def Recorded (tr : List NodeEvent) (id node : String) : Prop :=
  ∃ t, (⟨t, .recorded id node⟩ : NodeEvent) ∈ tr

/-- A rejection has taken out the record, and has yet to disconnect the node or was dropped. -/
def Rejecting (tr : List NodeEvent) (w : NodeWorld) (id node : String) : Prop :=
  ∃ t before after, tr = before ++ ⟨t, .removed id node⟩ :: after ∧
    (w.tasks t = some (.unlist id node) ∨ w.tasks t = some (.disconnect id node) ∨
      ⟨t, .dropped⟩ ∈ after)

section Histories

variable {tr : List NodeEvent} {e : NodeEvent} {w w' : NodeWorld} {t : ℕ} {act : NodeAct}
  {node id : String}

theorem listedOf_snoc : listedOf node (tr ++ [e]) =
    match e.act with
    | .listed n id => if node = n then some id else listedOf node tr
    | .unlisted n => if node = n then none else listedOf node tr
    | _ => listedOf node tr := by
  rw [listedOf, List.foldl_append]
  rfl

theorem issuedOf_snoc : issuedOf id (tr ++ [e]) =
    match e.act with
    | .recorded i _ => if id = i then none else issuedOf id tr
    | .approved i token => if id = i then some token else issuedOf id tr
    | .removed i _ => if id = i then none else issuedOf id tr
    | _ => issuedOf id tr := by
  rw [issuedOf, List.foldl_append]
  rfl

theorem Recorded.snoc (h : Recorded tr id node) : Recorded (tr ++ [e]) id node := by
  obtain ⟨t, hmem⟩ := h
  exact ⟨t, List.mem_append_left _ hmem⟩

theorem recorded_snoc_iff : Recorded (tr ++ [⟨t, act⟩]) id node ↔
    Recorded tr id node ∨ act = .recorded id node := by
  constructor
  · rintro ⟨s, hmem⟩
    rcases List.mem_append.mp hmem with hmem | hmem
    · exact Or.inl ⟨s, hmem⟩
    · cases List.mem_singleton.mp hmem
      exact Or.inr rfl
  · rintro (h | rfl)
    · exact h.snoc
    · exact ⟨t, by simp⟩

end Histories

/-! ## §3  Tokens -/

/-- A record that is not entered yet was not approved. -/
def NodeStage.Blank (stage : NodeStage) : Prop :=
  ∀ entry, stage = .record entry → entry.approved = false ∧ entry.token = none

/-- What the maps hold, read off the history. -/
structure TokensSound (tr : List NodeEvent) (w : NodeWorld) : Prop where
  listed : ∀ node, w.index.lookup node = listedOf node tr
  issued : ∀ id, (w.pairs.lookup id).bind NodePairRecord.token = issuedOf id tr
  approved : ∀ id entry, w.pairs.lookup id = some entry →
    (entry.approved = true ↔ entry.token.isSome = true)
  blank : ∀ t stage, w.tasks t = some stage → stage.Blank

section Tokens

variable {build : Build} {tr before mid after : List NodeEvent} {w w' : NodeWorld} {t t' : ℕ}
  {act : NodeAct} {node id token : String} {tasks : ℕ → Option NodeStage}
  {stage : Option NodeStage}

theorem forall_update {P : NodeStage → Prop} (h : ∀ t s, tasks t = some s → P s)
    (hstage : ∀ s, stage = some s → P s) :
    ∀ t' s, Function.update tasks t stage t' = some s → P s := by
  intro t' s hs
  rw [Function.update_apply] at hs
  split at hs
  · exact hstage s hs
  · exact h t' s hs

theorem unmoved (h : act.moves = false) (node id : String) :
    listedOf node (tr ++ [⟨t, act⟩]) = listedOf node tr ∧
      issuedOf id (tr ++ [⟨t, act⟩]) = issuedOf id tr := by
  rw [listedOf_snoc, issuedOf_snoc]
  cases act <;> first | exact ⟨rfl, rfl⟩ | cases h

/-- A step that leaves the maps as they are. -/
theorem TokensSound.still (h : TokensSound tr w) (hpairs : w'.pairs = w.pairs)
    (hindex : w'.index = w.index) (htasks : w'.tasks = Function.update w.tasks t stage)
    (hact : ∀ node id, listedOf node (tr ++ [⟨t, act⟩]) = listedOf node tr ∧
      issuedOf id (tr ++ [⟨t, act⟩]) = issuedOf id tr)
    (hstage : ∀ s, stage = some s → s.Blank) : TokensSound (tr ++ [⟨t, act⟩]) w' := by
  refine ⟨?_, ?_, ?_, ?_⟩
  · intro node
    rw [(hact node "").1, hindex]
    exact h.listed node
  · intro id
    rw [(hact "" id).2, hpairs]
    exact h.issued id
  · rw [hpairs]
    exact h.approved
  · rw [htasks]
    exact forall_update h.blank hstage

theorem TokensSound.step (h : TokensSound tr w) (hmove : NodeMove w t act w') :
    TokensSound (tr ++ [⟨t, act⟩]) w' := by
  cases hmove with
  | quiet hact _ hplain =>
      refine h.still rfl rfl rfl (unmoved (by cases act <;> first | rfl | cases hact)) ?_
      rintro s hs entry rfl
      cases hplain _ hs
  | created _ _ =>
      refine h.still rfl rfl rfl (unmoved rfl) ?_
      rintro _ ⟨⟩ entry ⟨⟩
      exact ⟨rfl, rfl⟩
  | @recorded entry ht _ =>
      obtain ⟨hpending, hnone⟩ := h.blank t _ ht entry rfl
      refine ⟨?_, ?_, ?_, forall_update h.blank ?_⟩
      · intro node
        rw [listedOf_snoc]
        exact h.listed node
      · intro id
        rw [issuedOf_snoc]
        show ((w.pairs.insert entry.requestId entry).lookup id).bind _ = _
        rw [HashMap.lookup_insert_eq]
        simp only
        split
        · exact hnone
        · exact h.issued id
      · intro id entry' hentry'
        change (w.pairs.insert entry.requestId entry).lookup id = _ at hentry'
        rw [HashMap.lookup_insert_eq] at hentry'
        split at hentry'
        · cases hentry'
          simp [hpending, hnone]
        · exact h.approved id entry' hentry'
      · rintro _ ⟨⟩ entry ⟨⟩
  | @listed entry ht =>
      refine ⟨?_, ?_, h.approved, forall_update h.blank (by rintro _ ⟨⟩)⟩
      · intro node
        rw [listedOf_snoc]
        show (w.index.insert entry.nodeId entry.requestId).lookup node = _
        rw [HashMap.lookup_insert_eq]
        simp only
        split
        · rfl
        · exact h.listed node
      · intro id
        rw [issuedOf_snoc]
        exact h.issued id
  | @approved i token now entry ht _ hentry =>
      refine ⟨?_, ?_, ?_, forall_update h.blank (by rintro _ ⟨⟩)⟩
      · intro node
        rw [listedOf_snoc]
        exact h.listed node
      · intro id
        rw [issuedOf_snoc]
        show ((w.pairs.insert i _).lookup id).bind _ = _
        rw [HashMap.lookup_insert_eq]
        simp only
        split
        · rfl
        · exact h.issued id
      · intro id entry' hentry'
        change (w.pairs.insert i _).lookup id = _ at hentry'
        rw [HashMap.lookup_insert_eq] at hentry'
        split at hentry'
        · cases hentry'
          simp
        · exact h.approved id entry' hentry'
  | @removed i entry ht _ hentry =>
      refine ⟨?_, ?_, ?_, forall_update h.blank (by rintro _ ⟨⟩ entry ⟨⟩)⟩
      · intro node
        rw [listedOf_snoc]
        exact h.listed node
      · intro id
        rw [issuedOf_snoc]
        show ((w.pairs.erase i).lookup id).bind _ = _
        rw [HashMap.lookup_erase_eq]
        simp only
        split
        · rfl
        · exact h.issued id
      · intro id entry' hentry'
        change (w.pairs.erase i).lookup id = _ at hentry'
        rw [HashMap.lookup_erase_eq] at hentry'
        split at hentry'
        · cases hentry'
        · exact h.approved id entry' hentry'
  | @unlisted i n ht =>
      refine ⟨?_, ?_, h.approved, forall_update h.blank (by rintro _ ⟨⟩ entry ⟨⟩)⟩
      · intro node
        rw [listedOf_snoc]
        show (w.index.erase n).lookup node = _
        rw [HashMap.lookup_erase_eq]
        simp only
        split
        · rfl
        · exact h.listed node
      · intro id
        rw [issuedOf_snoc]
        exact h.issued id
  | @passed n token i now entry ht _ hentry happroved htoken =>
      refine ⟨?_, ?_, ?_, forall_update h.blank (by rintro _ ⟨⟩ entry ⟨⟩)⟩
      · intro node
        rw [listedOf_snoc]
        exact h.listed node
      · intro id
        rw [issuedOf_snoc, ← h.issued id]
        show ((w.pairs.insert i _).lookup id).bind _ = _
        rw [HashMap.lookup_insert_eq]
        split
        · rename_i hid
          rw [hid, hentry]
          rfl
        · rfl
      · intro id entry' hentry'
        change (w.pairs.insert i _).lookup id = _ at hentry'
        rw [HashMap.lookup_insert_eq] at hentry'
        split at hentry'
        · cases hentry'
          exact h.approved i entry hentry
        · exact h.approved id entry' hentry'
  | disconnected _ => exact h.still rfl rfl rfl (unmoved rfl) (by rintro _ ⟨⟩)
  | missed _ _ => exact h.still rfl rfl rfl (unmoved rfl) (by rintro _ ⟨⟩)
  | looked _ _ => exact h.still rfl rfl rfl (unmoved rfl) (by rintro _ ⟨⟩ entry ⟨⟩)
  | refused _ _ => exact h.still rfl rfl rfl (unmoved rfl) (by rintro _ ⟨⟩)
  | connected _ => exact h.still rfl rfl rfl (unmoved rfl) (by rintro _ ⟨⟩)
  | dropped _ => exact h.still rfl rfl rfl (unmoved rfl) (by rintro _ ⟨⟩)

theorem tokens_of_run (run : Runs (NodeWorld.Step build) .init tr w) : TokensSound tr w := by
  induction run with
  | nil => exact ⟨fun _ => rfl, fun _ => rfl, by rintro _ _ ⟨⟩, by rintro _ _ ⟨⟩⟩
  | snoc _ hstep ih => exact ih.step (nodeMove_of_step hstep)

theorem task_kept (hmove : NodeMove w t act w') (hother : t' ≠ t) : w'.tasks t' = w.tasks t' := by
  cases hmove <;> exact Function.update_of_ne hother ..

theorem task_kept_of_run (run : Runs (NodeWorld.Step build) w tr w')
    (hother : ∀ e ∈ tr, e.task ≠ t) : w'.tasks t = w.tasks t := by
  induction run with
  | nil => rfl
  | @snoc tr u u' e _ hstep ih =>
      have hlast : e.task ≠ t := hother e (List.mem_append_right _ (List.mem_singleton.mpr rfl))
      rw [task_kept (nodeMove_of_step hstep) hlast.symm]
      exact ih (fun e he => hother e (List.mem_append_left _ he))

/-- **A verification passes exactly with the last token of the last request.** In every
interleaving, the handler of a verification that looked for the request of the node and then
checks the token passes if and only if the request that was listed for the node when it looked
is the one whose record stands, approved, with this token from its last approval. -/
theorem verified_iff {found : Option String} {answer : Except RpcError Unit}
    (run : Runs (NodeWorld.Step build) .init (before ++ ⟨t, .looked node token found⟩ ::
      (mid ++ ⟨t, .checked answer⟩ :: after)) w)
    (hmid : ∀ e ∈ mid, e.task ≠ t) :
    answer = .ok () ↔ ∃ id, listedOf node before = some id ∧
      issuedOf id (before ++ ⟨t, .looked node token found⟩ :: mid) = some token := by
  obtain ⟨u, hbefore, hrest⟩ := run.split
  obtain ⟨u', hlook, hrest⟩ := hrest.uncons
  obtain ⟨v, hwait, hrest⟩ := hrest.split
  obtain ⟨v', hcheck, -⟩ := hrest.uncons
  have hread := (tokens_of_run hbefore).listed node
  have hsound : TokensSound (before ++ ⟨t, .looked node token found⟩ :: mid) v := by
    have hrun := (hbefore.snoc hlook).append hwait
    rw [List.append_assoc] at hrun
    exact tokens_of_run hrun
  have hkept : v.tasks t = u'.tasks t := task_kept_of_run hwait hmid
  have hlook := nodeMove_of_step hlook
  have hcheck := nodeMove_of_step hcheck
  cases hlook with
  | missed _ _ =>
      -- the handler is over, and nothing is left to be checked
      have hnone : v.tasks t = none := by
        rw [hkept]
        exact Function.update_self ..
      cases hcheck with
      | refused ht _ => rw [hnone] at ht; cases ht
      | passed ht _ _ _ _ => rw [hnone] at ht; cases ht
      | quiet hact _ _ => cases hact
  | @looked _ _ id _ hindex =>
      have hstage : v.tasks t = some (.checkToken node id token) := by
        rw [hkept]
        exact Function.update_self ..
      rw [← hread, hindex]
      simp only [Option.some.injEq, exists_eq_left']
      rw [← hsound.issued id]
      cases hcheck with
      | refused ht hfails =>
          rw [hstage] at ht
          cases ht
          refine ⟨(by rintro ⟨⟩), ?_⟩
          intro hissued
          obtain ⟨entry, hentry, htoken⟩ := Option.bind_eq_some_iff.mp hissued
          have happroved := (hsound.approved id entry hentry).mpr (by rw [htoken]; rfl)
          exact absurd htoken (hfails entry hentry happroved)
      | passed ht _ hentry _ htoken =>
          rw [hstage] at ht
          cases ht
          rw [hentry]
          exact ⟨fun _ => htoken, fun _ => rfl⟩
      | quiet hact _ _ => cases hact
  | quiet hact _ _ => cases hact

def sampleNodeInput : NodeInput := ⟨"request-1", "123456", "token-1", 0, 0, 1000⟩

/-- A node is paired and approved, and approved once more while its token is on the way. -/
def verifyTurns : List NodeTurn :=
  .call 0 (.pairRequest (some " node-1 ") (some "Phone") false) ::
    List.replicate 4 (.run 0 sampleNodeInput) ++
    .call 1 (.pairApprove (some "request-1")) :: List.replicate 2 (.run 1 sampleNodeInput) ++
    .call 2 (.pairVerify (some "node-1") (some "token-1")) :: .run 2 sampleNodeInput ::
    .call 3 (.pairApprove (some "request-1")) :: .run 3 sampleNodeInput ::
    .run 3 { sampleNodeInput with token := "token-2" } :: [.run 2 sampleNodeInput]

theorem verifyTurns_run : (exec (NodeWorld.next .wrapping) .init verifyTurns).isSome = true := by
  decide

theorem verified_iff_sample :
    ∃ before mid answer after w, Runs (NodeWorld.Step .wrapping) .init
        (before ++ ⟨2, .looked "node-1" "token-1" (some "request-1")⟩ ::
          (mid ++ ⟨2, .checked answer⟩ :: after)) w ∧
      listedOf "node-1" before = some "request-1" ∧
      issuedOf "request-1" before = some "token-1" ∧ answer ≠ .ok () := by
  have hrun := runs_of_exec_isSome verifyTurns verifyTurns_run
  let tr := ((exec (NodeWorld.next .wrapping) .init verifyTurns).get verifyTurns_run).1
  have hsplit : ((exec (NodeWorld.next .wrapping) .init verifyTurns).get verifyTurns_run).1 =
      tr.take 9 ++ ⟨2, .looked "node-1" "token-1" (some "request-1")⟩ ::
        ((tr.drop 10).take 3 ++
          ⟨2, .checked (.error ⟨"INVALID_REQUEST", "invalid token"⟩)⟩ :: []) := by
    decide
  rw [hsplit] at hrun
  refine ⟨_, _, _, _, _, hrun, by decide, by decide, ?_⟩
  intro hok
  obtain ⟨id, hlisted, hissued⟩ := (verified_iff hrun (by decide)).mp hok
  have hid : listedOf "node-1" (tr.take 9) = some "request-1" := by decide
  rw [hid] at hlisted
  cases hlisted
  exact absurd hissued (by decide)

end Tokens

/-! ## §4  Names -/

/-- What a handler knows of the requests `R` that were recorded for nodes. -/
def NodeStage.Knows (R : String → String → Prop) (minted : List String) : NodeStage → Prop
  | .record entry => entry.requestId ∈ minted ∧ ∀ node, ¬ R entry.requestId node
  | .list entry => R entry.requestId entry.nodeId
  | .checkToken node id _ => R id node
  | _ => True

/-- Every request is recorded once, and for one node. -/
structure NamesSound (R : String → String → Prop) (w : NodeWorld) : Prop where
  knows : ∀ t s, w.tasks t = some s → s.Knows R w.minted
  apart : ∀ t t' entry entry', w.tasks t = some (.record entry) →
    w.tasks t' = some (.record entry') → entry.requestId = entry'.requestId → t = t'
  named : ∀ id entry, w.pairs.lookup id = some entry → R id entry.nodeId
  indexed : ∀ node id, w.index.lookup node = some id → R id node
  once : ∀ id node node', R id node → R id node' → node = node'
  minted : ∀ id node, R id node → id ∈ w.minted

section Names

variable {build : Build} {tr : List NodeEvent} {w w' : NodeWorld} {t : ℕ} {act : NodeAct}
  {R : String → String → Prop} {stage : Option NodeStage}

/-- A step that records nothing and gives out no identity. -/
theorem NamesSound.still (h : NamesSound R w)
    (hpairs : ∀ id entry, w'.pairs.lookup id = some entry → R id entry.nodeId)
    (hindex : ∀ node id, w'.index.lookup node = some id → R id node)
    (hminted : w'.minted = w.minted) (htasks : w'.tasks = Function.update w.tasks t stage)
    (hstage : ∀ s, stage = some s → s.Knows R w.minted)
    (hrecord : ∀ entry, stage ≠ some (.record entry)) : NamesSound R w' := by
  have hold : ∀ s entry, w'.tasks s = some (.record entry) → w.tasks s = some (.record entry) := by
    intro s entry hs
    rw [htasks, Function.update_apply] at hs
    split at hs
    · exact absurd hs (hrecord entry)
    · exact hs
  refine ⟨?_, ?_, hpairs, hindex, h.once, ?_⟩
  · rw [htasks, hminted]
    exact forall_update h.knows hstage
  · intro s s' entry entry' hs hs' heq
    exact h.apart s s' entry entry' (hold s entry hs) (hold s' entry' hs') heq
  · rw [hminted]
    exact h.minted

theorem NodeStage.Knows.of_plain {s : NodeStage} {minted : List String} (h : s.plain = true) :
    s.Knows R minted := by
  cases s <;> trivial

theorem recorded_eq (h : ∀ id node, act ≠ .recorded id node) :
    Recorded (tr ++ [⟨t, act⟩]) = Recorded tr := by
  funext id node
  simp [recorded_snoc_iff, h id node]

/-- Another request is recorded. -/
theorem NamesSound.record {entry : NodePairRecord} (h : NamesSound (Recorded tr) w)
    (ht : w.tasks t = some (.record entry)) :
    NamesSound (Recorded (tr ++ [⟨t, .recorded entry.requestId entry.nodeId⟩]))
      ({ w with pairs := w.pairs.insert entry.requestId entry }.put t (some (.list entry))) := by
  obtain ⟨hminted, hnew⟩ := h.knows t _ ht
  have hmono : ∀ id node, Recorded tr id node →
      Recorded (tr ++ [⟨t, .recorded entry.requestId entry.nodeId⟩]) id node :=
    fun id node hrec => hrec.snoc
  have hnewest : Recorded (tr ++ [⟨t, .recorded entry.requestId entry.nodeId⟩])
      entry.requestId entry.nodeId := recorded_snoc_iff.mpr (Or.inr rfl)
  have hother : ∀ s entry', Function.update w.tasks t (some (.list entry)) s =
      some (.record entry') → s ≠ t ∧ w.tasks s = some (.record entry') := by
    intro s entry' hs
    rw [Function.update_apply] at hs
    split at hs
    · cases hs
    · rename_i hne
      exact ⟨hne, hs⟩
  refine ⟨?_, ?_, ?_, ?_, ?_, ?_⟩
  · intro s stage hs
    change Function.update w.tasks t (some (.list entry)) s = some stage at hs
    cases stage with
    | record entry' =>
        obtain ⟨hne, hs⟩ := hother s entry' hs
        obtain ⟨hminted', hnew'⟩ := h.knows s _ hs
        refine ⟨hminted', ?_⟩
        intro node hrec
        rcases recorded_snoc_iff.mp hrec with hrec | hrec
        · exact hnew' node hrec
        · obtain ⟨hid, -⟩ := NodeAct.recorded.inj hrec
          exact hne (h.apart s t entry' entry hs ht hid.symm)
    | list entry' =>
        rw [Function.update_apply] at hs
        split at hs
        · cases hs
          exact hnewest
        · exact hmono _ _ (h.knows s _ hs)
    | checkToken node id token =>
        rw [Function.update_apply] at hs
        split at hs
        · cases hs
        · exact hmono _ _ (h.knows s _ hs)
    | _ => trivial
  · intro s s' entry₁ entry₂ hs hs' heq
    exact h.apart s s' entry₁ entry₂ (hother s entry₁ hs).2 (hother s' entry₂ hs').2 heq
  · intro id entry' hentry'
    change (w.pairs.insert entry.requestId entry).lookup id = _ at hentry'
    rw [HashMap.lookup_insert_eq] at hentry'
    split at hentry'
    · rename_i hid
      cases hentry'
      rw [hid]
      exact hnewest
    · exact hmono _ _ (h.named id entry' hentry')
  · intro node id hindex
    exact hmono _ _ (h.indexed node id hindex)
  · intro id node node' hrec hrec'
    rcases recorded_snoc_iff.mp hrec with hrec | hrec <;>
      rcases recorded_snoc_iff.mp hrec' with hrec' | hrec'
    · exact h.once id node node' hrec hrec'
    · cases hrec'
      exact absurd hrec (hnew node)
    · cases hrec
      exact absurd hrec' (hnew node')
    · cases hrec
      cases hrec'
      rfl
  · intro id node hrec
    rcases recorded_snoc_iff.mp hrec with hrec | hrec
    · exact h.minted id node hrec
    · cases hrec
      exact hminted

/-- Another identity is given out. -/
theorem NamesSound.create {ask : PairAsk} {store : PairingStore} {uuid : String} {now : ℕ}
    (h : NamesSound R w) (hfresh : uuid ∉ w.minted) :
    NamesSound R ({ w with store := store, minted := uuid :: w.minted }.put t
      (some (.record (ask.record uuid now)))) := by
  have hstage : ∀ s entry, Function.update w.tasks t (some (.record (ask.record uuid now))) s =
      some (.record entry) → s = t ∧ entry.requestId = uuid ∨
        w.tasks s = some (.record entry) ∧ entry.requestId ≠ uuid := by
    intro s entry hs
    rw [Function.update_apply] at hs
    split at hs
    · rename_i hst
      cases hs
      exact Or.inl ⟨hst, rfl⟩
    · refine Or.inr ⟨hs, ?_⟩
      rintro rfl
      exact hfresh (h.knows s _ hs).1
  refine ⟨?_, ?_, h.named, h.indexed, h.once, ?_⟩
  · refine forall_update ?_ ?_
    · intro s stage hs
      have hknows := h.knows s stage hs
      cases stage with
      | record entry => exact ⟨List.mem_cons_of_mem _ hknows.1, hknows.2⟩
      | list entry => exact hknows
      | checkToken node id token => exact hknows
      | _ => trivial
    · rintro _ ⟨⟩
      exact ⟨List.mem_cons_self, fun node hrec => hfresh (h.minted _ node hrec)⟩
  · intro s s' entry entry' hs hs' heq
    rcases hstage s entry hs with ⟨rfl, hid⟩ | ⟨hs, hid⟩ <;>
      rcases hstage s' entry' hs' with ⟨rfl, hid'⟩ | ⟨hs', hid'⟩
    · rfl
    · exact absurd (heq ▸ hid) hid'
    · exact absurd (heq ▸ hid') hid
    · exact h.apart s s' entry entry' hs hs' heq
  · intro id node hrec
    exact List.mem_cons_of_mem _ (h.minted id node hrec)

theorem NamesSound.step (h : NamesSound (Recorded tr) w) (hmove : NodeMove w t act w') :
    NamesSound (Recorded (tr ++ [⟨t, act⟩])) w' := by
  cases hmove with
  | quiet hact _ hplain =>
      rw [recorded_eq (by rintro id node rfl; cases hact)]
      refine h.still h.named h.indexed rfl rfl (fun s hs => .of_plain (hplain s hs)) ?_
      rintro entry rfl
      cases hplain _ rfl
  | created _ hfresh =>
      rw [recorded_eq (by rintro id node ⟨⟩)]
      exact h.create hfresh
  | recorded ht _ => exact h.record ht
  | @listed entry ht =>
      rw [recorded_eq (by rintro id node ⟨⟩)]
      refine h.still h.named ?_ rfl rfl (by rintro _ ⟨⟩) (by rintro _ ⟨⟩)
      intro node id hindex
      change (w.index.insert entry.nodeId entry.requestId).lookup node = _ at hindex
      rw [HashMap.lookup_insert_eq] at hindex
      split at hindex
      · rename_i hnode
        cases hindex
        rw [hnode]
        exact h.knows t _ ht
      · exact h.indexed node id hindex
  | @approved i token now entry _ _ hentry =>
      rw [recorded_eq (by rintro id node ⟨⟩)]
      refine h.still ?_ h.indexed rfl rfl (by rintro _ ⟨⟩) (by rintro _ ⟨⟩)
      intro id entry' hentry'
      change (w.pairs.insert i _).lookup id = _ at hentry'
      rw [HashMap.lookup_insert_eq] at hentry'
      split at hentry'
      · rename_i hid
        cases hentry'
        rw [hid]
        exact h.named i entry hentry
      · exact h.named id entry' hentry'
  | @removed i entry _ _ hentry =>
      rw [recorded_eq (by rintro id node ⟨⟩)]
      refine h.still ?_ h.indexed rfl rfl (by rintro _ ⟨⟩; trivial) (by rintro _ ⟨⟩)
      intro id entry' hentry'
      change (w.pairs.erase i).lookup id = _ at hentry'
      rw [HashMap.lookup_erase_eq] at hentry'
      split at hentry'
      · cases hentry'
      · exact h.named id entry' hentry'
  | @unlisted i n _ =>
      rw [recorded_eq (by rintro id node ⟨⟩)]
      refine h.still h.named ?_ rfl rfl (by rintro _ ⟨⟩; trivial) (by rintro _ ⟨⟩)
      intro node id hindex
      change (w.index.erase n).lookup node = _ at hindex
      rw [HashMap.lookup_erase_eq] at hindex
      split at hindex
      · cases hindex
      · exact h.indexed node id hindex
  | disconnected _ =>
      rw [recorded_eq (by rintro id node ⟨⟩)]
      exact h.still h.named h.indexed rfl rfl (by rintro _ ⟨⟩) (by rintro _ ⟨⟩)
  | missed _ _ =>
      rw [recorded_eq (by rintro id node ⟨⟩)]
      exact h.still h.named h.indexed rfl rfl (by rintro _ ⟨⟩) (by rintro _ ⟨⟩)
  | @looked node token id _ hindex =>
      rw [recorded_eq (by rintro id node ⟨⟩)]
      refine h.still h.named h.indexed rfl rfl ?_ (by rintro _ ⟨⟩)
      rintro _ ⟨⟩
      exact h.indexed node id hindex
  | refused _ _ =>
      rw [recorded_eq (by rintro id node ⟨⟩)]
      exact h.still h.named h.indexed rfl rfl (by rintro _ ⟨⟩) (by rintro _ ⟨⟩)
  | @passed n token i now entry _ _ hentry _ _ =>
      rw [recorded_eq (by rintro id node ⟨⟩)]
      refine h.still ?_ h.indexed rfl rfl (by rintro _ ⟨⟩; trivial) (by rintro _ ⟨⟩)
      intro id entry' hentry'
      change (w.pairs.insert i _).lookup id = _ at hentry'
      rw [HashMap.lookup_insert_eq] at hentry'
      split at hentry'
      · rename_i hid
        cases hentry'
        rw [hid]
        exact h.named i entry hentry
      · exact h.named id entry' hentry'
  | connected _ =>
      rw [recorded_eq (by rintro id node ⟨⟩)]
      exact h.still h.named h.indexed rfl rfl (by rintro _ ⟨⟩) (by rintro _ ⟨⟩)
  | dropped _ =>
      rw [recorded_eq (by rintro id node ⟨⟩)]
      exact h.still h.named h.indexed rfl rfl (by rintro _ ⟨⟩) (by rintro _ ⟨⟩)

theorem names_of_run (run : Runs (NodeWorld.Step build) .init tr w) :
    NamesSound (Recorded tr) w := by
  induction run with
  | nil =>
      refine ⟨by rintro _ _ ⟨⟩, by rintro _ _ _ _ ⟨⟩, by rintro _ _ ⟨⟩, by rintro _ _ ⟨⟩, ?_, ?_⟩
      · rintro id node node' ⟨_, hmem⟩
        cases hmem
      · rintro id node ⟨_, hmem⟩
        cases hmem
  | snoc _ hstep ih => exact ih.step (nodeMove_of_step hstep)

end Names

/-! ## §5  Connections -/

/-- The record of the request stands, approved. -/
def Standing (w : NodeWorld) (id node : String) : Prop :=
  ∃ entry, w.pairs.lookup id = some entry ∧ entry.nodeId = node ∧ entry.approved = true

/-- What keeps a node connected. -/
def Vouched (tr : List NodeEvent) (w : NodeWorld) (id node : String) : Prop :=
  Standing w id node ∨ Rejecting tr w id node

structure ConnectedSound (tr : List NodeEvent) (w : NodeWorld) : Prop where
  holding : ∀ t node id, w.tasks t = some (.connect node id) →
    w.holder = some t ∧ Standing w id node
  vouched : ∀ node ∈ w.connected, ∃ id, (∃ t, ⟨t, .connected node id⟩ ∈ tr) ∧ Vouched tr w id node

section Connections

variable {build : Build} {tr : List NodeEvent} {w w' : NodeWorld} {t s : ℕ} {act : NodeAct}
  {node id : String}

/-- A handler on its way to disconnect a node goes on or is dropped. -/
theorem unlist_move (ht : w.tasks t = some (.unlist id node)) (hmove : NodeMove w t act w') :
    w'.tasks t = some (.disconnect id node) ∨ act = .dropped := by
  cases hmove with
  | quiet _ hidle _ => cases hidle _ ht
  | @unlisted i n h =>
      rw [ht] at h
      cases h
      exact Or.inl (Function.update_self ..)
  | dropped _ => exact Or.inr rfl
  | _ => simp_all only [Option.some.injEq, reduceCtorEq]

theorem disconnect_move (ht : w.tasks t = some (.disconnect id node))
    (hmove : NodeMove w t act w') : act = .disconnected node ∨ act = .dropped := by
  cases hmove with
  | quiet _ hidle _ => cases hidle _ ht
  | @disconnected i n h =>
      rw [ht] at h
      cases h
      exact Or.inl rfl
  | dropped _ => exact Or.inr rfl
  | _ => simp_all only [Option.some.injEq, reduceCtorEq]

theorem Rejecting.step (h : Rejecting tr w id node) (hmove : NodeMove w t act w')
    (hact : act ≠ .disconnected node) : Rejecting (tr ++ [⟨t, act⟩]) w' id node := by
  obtain ⟨s, before, after, rfl, hs⟩ := h
  refine ⟨s, before, after ++ [⟨t, act⟩], by simp, ?_⟩
  by_cases hst : s = t
  · subst hst
    rcases hs with hunlist | hdisconnect | hdropped
    · rcases unlist_move hunlist hmove with hnext | rfl
      · exact Or.inr (Or.inl hnext)
      · exact Or.inr (Or.inr (by simp))
    · rcases disconnect_move hdisconnect hmove with hdone | rfl
      · exact absurd hdone hact
      · exact Or.inr (Or.inr (by simp))
    · exact Or.inr (Or.inr (List.mem_append_left _ hdropped))
  · rw [task_kept hmove hst]
    rcases hs with hunlist | hdisconnect | hdropped
    · exact Or.inl hunlist
    · exact Or.inr (Or.inl hdisconnect)
    · exact Or.inr (Or.inr (List.mem_append_left _ hdropped))

/-- A record stands until a rejection takes it out. -/
theorem Standing.step (h : Standing w id node) (hnames : NamesSound (Recorded tr) w)
    (hmove : NodeMove w t act w') :
    Standing w' id node ∨
      act = .removed id node ∧ w'.tasks t = some (.unlist id node) := by
  obtain ⟨entry, hentry, hnode, happroved⟩ := h
  cases hmove with
  | @recorded entry' ht _ =>
      refine Or.inl ⟨entry, ?_, hnode, happroved⟩
      show (w.pairs.insert entry'.requestId entry').lookup id = _
      rw [HashMap.lookup_insert_eq, if_neg, hentry]
      rintro rfl
      exact (hnames.knows t _ ht).2 _ (hnames.named _ entry hentry)
  | @approved i token now entry' _ _ hentry' =>
      by_cases hid : id = i
      · subst hid
        rw [hentry] at hentry'
        cases hentry'
        exact Or.inl ⟨_, AList.lookup_insert .., hnode, rfl⟩
      · refine Or.inl ⟨entry, ?_, hnode, happroved⟩
        show (w.pairs.insert i _).lookup id = _
        rw [HashMap.lookup_insert_eq, if_neg hid, hentry]
  | @removed i entry' _ _ hentry' =>
      by_cases hid : id = i
      · subst hid
        rw [hentry] at hentry'
        cases hentry'
        subst hnode
        exact Or.inr ⟨rfl, Function.update_self ..⟩
      · refine Or.inl ⟨entry, ?_, hnode, happroved⟩
        show (w.pairs.erase i).lookup id = _
        rw [HashMap.lookup_erase_eq, if_neg hid, hentry]
  | @passed n token i now entry' _ _ hentry' _ _ =>
      by_cases hid : id = i
      · subst hid
        rw [hentry] at hentry'
        cases hentry'
        exact Or.inl ⟨_, AList.lookup_insert .., hnode, happroved⟩
      · refine Or.inl ⟨entry, ?_, hnode, happroved⟩
        show (w.pairs.insert i _).lookup id = _
        rw [HashMap.lookup_insert_eq, if_neg hid, hentry]
  | quiet _ _ _ => exact Or.inl ⟨entry, hentry, hnode, happroved⟩
  | created _ _ => exact Or.inl ⟨entry, hentry, hnode, happroved⟩
  | listed _ => exact Or.inl ⟨entry, hentry, hnode, happroved⟩
  | unlisted _ => exact Or.inl ⟨entry, hentry, hnode, happroved⟩
  | disconnected _ => exact Or.inl ⟨entry, hentry, hnode, happroved⟩
  | missed _ _ => exact Or.inl ⟨entry, hentry, hnode, happroved⟩
  | looked _ _ => exact Or.inl ⟨entry, hentry, hnode, happroved⟩
  | refused _ _ => exact Or.inl ⟨entry, hentry, hnode, happroved⟩
  | connected _ => exact Or.inl ⟨entry, hentry, hnode, happroved⟩
  | dropped _ => exact Or.inl ⟨entry, hentry, hnode, happroved⟩

theorem Vouched.step (h : Vouched tr w id node) (hnames : NamesSound (Recorded tr) w)
    (hmove : NodeMove w t act w') (hact : act ≠ .disconnected node) :
    Vouched (tr ++ [⟨t, act⟩]) w' id node := by
  rcases h with hstanding | hrejecting
  · rcases hstanding.step hnames hmove with hstanding | ⟨rfl, hstage⟩
    · exact Or.inl hstanding
    · exact Or.inr ⟨t, tr, [], rfl, Or.inl hstage⟩
  · exact Or.inr (hrejecting.step hmove hact)

/-- A record that is about to connect its node stands while the lock is held. -/
theorem holding_step (h : ConnectedSound tr w) (hnames : NamesSound (Recorded tr) w)
    (hmove : NodeMove w t act w') (hs : w'.tasks s = some (.connect node id)) :
    w'.holder = some s ∧ Standing w' id node := by
  have hold : s ≠ t → w.holder = some s ∧ Standing w id node := by
    intro hst
    rw [task_kept hmove hst] at hs
    exact h.holding s node id hs
  cases hmove with
  | quiet _ _ hplain =>
      refine hold ?_
      rintro rfl
      cases hplain _ (by simpa [NodeWorld.put] using hs)
  | recorded _ hfree =>
      have hst : s ≠ t := by rintro rfl; simp [NodeWorld.put] at hs
      rw [(hold hst).1] at hfree
      cases hfree
  | approved _ hfree _ =>
      have hst : s ≠ t := by rintro rfl; simp [NodeWorld.put] at hs
      rw [(hold hst).1] at hfree
      cases hfree
  | removed _ hfree _ =>
      have hst : s ≠ t := by rintro rfl; simp [NodeWorld.put] at hs
      rw [(hold hst).1] at hfree
      cases hfree
  | @passed n token i now entry ht hfree hentry happroved _ =>
      by_cases hst : s = t
      · subst hst
        obtain ⟨rfl, rfl⟩ : n = node ∧ i = id := by simpa [NodeWorld.put] using hs
        have hnode : entry.nodeId = n :=
          hnames.once i _ _ (hnames.named i entry hentry) (hnames.knows s _ ht)
        exact ⟨rfl, _, AList.lookup_insert .., hnode, happroved⟩
      · rw [(hold hst).1] at hfree
        cases hfree
  | @connected n i ht =>
      have hst : s ≠ t := by rintro rfl; simp [NodeWorld.put] at hs
      have hheld := (h.holding t n i ht).1
      rw [(hold hst).1] at hheld
      exact absurd (Option.some.inj hheld) hst
  | dropped _ =>
      have hst : s ≠ t := by rintro rfl; simp [NodeWorld.put] at hs
      obtain ⟨hheld, hstanding⟩ := hold hst
      refine ⟨?_, hstanding⟩
      show (if w.holder = some t then none else w.holder) = some s
      rw [hheld, if_neg (by simpa using hst)]
  | _ => exact hold (by rintro rfl; simp [NodeWorld.put] at hs)

theorem ConnectedSound.step (h : ConnectedSound tr w) (hnames : NamesSound (Recorded tr) w)
    (hmove : NodeMove w t act w') : ConnectedSound (tr ++ [⟨t, act⟩]) w' := by
  refine ⟨fun s node id hs => holding_step h hnames hmove hs, ?_⟩
  -- a node that was connected before stays vouched for unless this step disconnects it
  have hstays : ∀ node ∈ w.connected, act ≠ .disconnected node →
      ∃ id, (∃ t', ⟨t', .connected node id⟩ ∈ tr ++ [⟨t, act⟩]) ∧
        Vouched (tr ++ [⟨t, act⟩]) w' id node := by
    intro node hnode hact
    obtain ⟨id, ⟨t', hmem⟩, hvouched⟩ := h.vouched node hnode
    exact ⟨id, ⟨t', List.mem_append_left _ hmem⟩, hvouched.step hnames hmove hact⟩
  intro node hnode
  cases hmove with
  | @connected n i ht =>
      by_cases hn : node = n
      · subst hn
        exact ⟨i, ⟨t, by simp⟩, Or.inl (h.holding t node i ht).2⟩
      · exact hstays node ((Finset.mem_insert.mp hnode).resolve_left hn) (by rintro ⟨⟩)
  | @disconnected i n _ =>
      obtain ⟨hn, hnode⟩ := Finset.mem_erase.mp hnode
      exact hstays node hnode (by rintro ⟨⟩; exact hn rfl)
  | quiet hact _ _ => exact hstays node hnode (by rintro rfl; cases hact)
  | _ => exact hstays node hnode (by rintro ⟨⟩)

theorem connected_of_run (run : Runs (NodeWorld.Step build) .init tr w) :
    ConnectedSound tr w := by
  induction run with
  | nil => exact ⟨by rintro _ _ _ ⟨⟩, fun _ hnode => absurd hnode (Finset.notMem_empty _)⟩
  | snoc hrun hstep ih => exact ih.step (names_of_run hrun) (nodeMove_of_step hstep)

/-- **A node is connected only while it is paired.** In every interleaving, a node that is
connected was connected through a request whose record stands, approved; or a rejection has
taken the record out, and is on its way to disconnect the node or was dropped on it. -/
theorem connected_only_paired (run : Runs (NodeWorld.Step build) .init tr w)
    (hnode : node ∈ w.connected) :
    ∃ id, (∃ t, ⟨t, .connected node id⟩ ∈ tr) ∧
      ((∃ entry, w.pairs.lookup id = some entry ∧ entry.nodeId = node ∧ entry.approved = true) ∨
        ∃ t before after, tr = before ++ ⟨t, .removed id node⟩ :: after ∧
          (w.tasks t = some (.unlist id node) ∨ w.tasks t = some (.disconnect id node) ∨
            ⟨t, .dropped⟩ ∈ after)) :=
  (connected_of_run run).vouched node hnode

/-- The rejection is dropped when it has taken out the record. -/
def rejectTurns : List NodeTurn :=
  .call 0 (.pairRequest (some "node-1") none false) ::
    List.replicate 4 (.run 0 sampleNodeInput) ++
    .call 1 (.pairApprove (some "request-1")) :: List.replicate 2 (.run 1 sampleNodeInput) ++
    .call 2 (.pairVerify (some "node-1") (some "token-1")) ::
    List.replicate 3 (.run 2 sampleNodeInput) ++
    .call 3 (.pairReject (some "request-1")) :: List.replicate 2 (.run 3 sampleNodeInput) ++
    [.drop 3]

theorem rejectTurns_run : (exec (NodeWorld.next .wrapping) .init rejectTurns).isSome = true := by
  decide

theorem connected_only_paired_sample :
    ∃ tr w, Runs (NodeWorld.Step .wrapping) .init tr w ∧ "node-1" ∈ w.connected ∧
      (∀ id, w.pairs.lookup id = none) ∧
      ∃ id t before after, tr = before ++ ⟨t, .removed id "node-1"⟩ :: after := by
  have hrun := runs_of_exec_isSome rejectTurns rejectTurns_run
  have hnode : "node-1" ∈
      ((exec (NodeWorld.next .wrapping) .init rejectTurns).get rejectTurns_run).2.connected := by
    decide
  have hempty :
      ((exec (NodeWorld.next .wrapping) .init rejectTurns).get rejectTurns_run).2.pairs.toPairs =
        [] := by
    decide
  have hnone : ∀ id,
      ((exec (NodeWorld.next .wrapping) .init rejectTurns).get rejectTurns_run).2.pairs.lookup id =
        none := by
    intro id
    refine Option.eq_none_iff_forall_ne_some.mpr ?_
    intro entry hentry
    rw [← HashMap.mem_toPairs, hempty] at hentry
    cases hentry
  refine ⟨_, _, hrun, hnode, hnone, ?_⟩
  obtain ⟨id, -, ⟨entry, hentry, -⟩ | ⟨t, before, after, hsplit, -⟩⟩ :=
    connected_only_paired hrun hnode
  · rw [hnone id] at hentry
    cases hentry
  · exact ⟨id, t, before, after, hsplit⟩

end Connections

end Oclaw.Gateway.Nodes
