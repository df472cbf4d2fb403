import Oclaw.Lib.HashMap
import Oclaw.Lib.Transition
import Oclaw.MemoryCore.Chunks

/-!
# Stored memories

`add_memory` and `add_memory_text` of `MemoryManager`, and the table of the store with
`upsert` and `get` (`crates/memory-core/src`). A memory stays as it was stored just when
no later text of its source is cut at the position at which it ends.
-/

namespace Oclaw.MemoryCore

open Oclaw.Lib

/-! ## §1  The store -/

abbrev Store (E : Type) : Type := HashMap String (MemoryChunk E)

section Model

variable {E : Type}

/-- `INSERT … ON CONFLICT(id) DO UPDATE` of all columns. -/
def upsert (store : Store E) (chunk : MemoryChunk E) : Store E := store.insert chunk.id chunk

def upsertAll (store : Store E) (chunks : List (MemoryChunk E)) : Store E :=
  chunks.foldl upsert store

def getMemory (store : Store E) (id : String) : Option (MemoryChunk E) := store.lookup id

/-! ## §2  The two calls -/

/-- An embedding provider answers with an error or with vectors. -/
abbrev Embed (E : Type) : Type := List Text → Option (List E)

/-- `texts.chunks(size)` -/
def batches {β : Type} (size : ℕ) (l : List β) : List (List β) :=
  (List.range ((l.length + size - 1) / size)).map (fun i => (l.drop (i * size)).take size)

/-- Every batch must come back with as many vectors as it has texts. -/
def embedAll (embed : Embed E) : List (List Text) → Option (List E)
  | [] => some []
  | batch :: rest => do
      let embs ← embed batch
      if embs.length ≠ batch.length then none
      else
        let more ← embedAll embed rest
        return embs ++ more

def embedChunks (provider : Option (Embed E)) (chunks : List (MemoryChunk E)) :
    Option (List (MemoryChunk E)) :=
  match provider with
  | none => some chunks
  | some embed =>
      if chunks = [] then some chunks
      else do
        let embs ← embedAll embed (batches 64 (chunks.map (·.content)))
        return chunks.mapIdx (fun i chunk =>
          match embs[i]? with
          | some emb => { chunk with embedding := some emb }
          | none => chunk)

/-- `Uuid::to_string` -/
def isUuid (id : String) : Bool :=
  id.toList.length = 36 &&
    id.toList.all (fun c => ('0' ≤ c && c ≤ '9') || ('a' ≤ c && c ≤ 'f') || c = '-')

structure State (E : Type) : Type where
  store : Store E
  /-- The UUIDs drawn so far. -/
  uuids : List String

/-- A call with what it draws and reads from outside: a UUID, the clock, and the
answers of the embedding provider. -/
inductive Call (E : Type) : Type where
  | addMemory (id : String) (content : Text) (source : String) (now : ℕ)
      (provider : Option (Embed E))
  | addMemoryText (content : Text) (source : String) (now : ℕ) (provider : Option (Embed E))

/-- A call with the ids that it returned, if it did, and the chunks that it stored. -/
structure Event (E : Type) : Type where
  call : Call E
  returned : Option (List String)
  stored : List (MemoryChunk E)

def addMemory (s : State E) (id : String) (content : Text) (source : String) (now : ℕ)
    (provider : Option (Embed E)) : Event E × State E :=
  let call : Call E := .addMemory id content source now provider
  let embedding : Option (Option E) :=
    match provider with
    | none => some none
    | some embed => (embed [content]).map List.getLast?
  match embedding with
  | none => (⟨call, none, []⟩, { s with uuids := id :: s.uuids })
  | some embedding =>
      let chunk : MemoryChunk E := ⟨id, "", 0, 0, content, source, embedding, now⟩
      (⟨call, some [id], [chunk]⟩, ⟨upsert s.store chunk, id :: s.uuids⟩)

def memoryPath (source : String) : String := s!"memory:{source}"

def addMemoryText (cfg : Chunking) (s : State E) (content : Text) (source : String) (now : ℕ)
    (provider : Option (Embed E)) : Event E × State E :=
  let call : Call E := .addMemoryText content source now provider
  match (chunkByChars E cfg content (memoryPath source) source now).bind (embedChunks provider) with
  | none => (⟨call, none, []⟩, s)
  | some chunks =>
      (⟨call, some (chunks.map (·.id)), chunks⟩, { s with store := upsertAll s.store chunks })

/-- The manager: UUIDs are drawn once. -/
def next (cfg : Chunking) (s : State E) : Call E → Option (Event E × State E)
  | .addMemory id content source now provider =>
      if isUuid id = true ∧ id ∉ s.uuids then some (addMemory s id content source now provider)
      else none
  | .addMemoryText content source now provider =>
      some (addMemoryText cfg s content source now provider)

def start (E : Type) : State E := ⟨∅, []⟩

abbrev Step (E : Type) (cfg : Chunking) : State E → Event E → State E → Prop := Induced (next cfg)

def Call.content : Call E → Text
  | .addMemory _ content _ _ _ | .addMemoryText content _ _ _ => content

def Call.uuid : Call E → Option String
  | .addMemory id _ _ _ _ => some id
  | .addMemoryText _ _ _ _ => none

/-! ## §3  Ids of one call -/

variable {cfg : Chunking} {s s' : State E} {ev ev' : Event E} {tr : List (Event E)}
variable {chunk chunk' : MemoryChunk E} {chunks : List (MemoryChunk E)} {id : String}

/-- What does not depend on the embedding of a chunk is as it was. -/
theorem embedChunks_map {β : Type} {f : MemoryChunk E → β} {provider : Option (Embed E)}
    {chunks' : List (MemoryChunk E)} (hf : ∀ c e, f { c with embedding := some e } = f c)
    (h : embedChunks provider chunks = some chunks') : chunks'.map f = chunks.map f := by
  cases provider with
  | none =>
      cases h
      rfl
  | some embed =>
      simp only [embedChunks] at h
      split at h
      · cases h
        rfl
      · obtain ⟨embs, -, h⟩ := Option.bind_eq_some_iff.mp h
        cases h
        apply List.ext_getElem?
        intro i
        simp only [List.getElem?_map, List.getElem?_mapIdx, Option.map_map]
        congr 1
        funext c
        simp only [Function.comp_apply]
        split
        · exact hf c _
        · rfl

/-- Embeddings do not touch ids and contents. -/
theorem embedChunks_eq {provider : Option (Embed E)} {chunks' : List (MemoryChunk E)}
    (h : embedChunks provider chunks = some chunks') :
    chunks'.map (fun c => (c.id, c.content)) = chunks.map (fun c => (c.id, c.content)) :=
  embedChunks_map (fun _ _ => rfl) h

/-- How a call that returns makes its chunks. -/
inductive Made (cfg : Chunking) : Call E → List (String × Text) → Prop where
  | one {id content source now provider} : isUuid id = true →
      Made cfg (.addMemory id content source now provider) [(id, content)]
  | many {content source now provider made} :
      (∀ id body, (id, body) ∈ made → ∃ k a e, Cut cfg content k a e ∧
        slice content a e = some body ∧ id = chunkId (memoryPath source) k e) →
      (∀ k a e, Cut cfg content k a e → ∃ body, (chunkId (memoryPath source) k e, body) ∈ made) →
      Made cfg (.addMemoryText content source now provider) made

def Event.pairs (ev : Event E) : List (String × Text) := ev.stored.map (fun c => (c.id, c.content))

/-- A call that does not return has stored nothing. -/
def Event.Sound (cfg : Chunking) (ev : Event E) : Prop :=
  (ev.returned = none ∧ ev.stored = []) ∨
    (ev.returned = some (ev.stored.map (·.id)) ∧ Made cfg ev.call ev.pairs)

theorem step_cases (h : Step E cfg s ev s') :
    ev.Sound cfg ∧ s'.store = upsertAll s.store ev.stored ∧
      (∀ id ∈ ev.call.uuid, id ∉ s.uuids) ∧ s'.uuids = ev.call.uuid.toList ++ s.uuids := by
  obtain ⟨c, hnext⟩ := h
  cases c with
  | addMemory id content source now provider =>
      obtain ⟨⟨huuid, hfresh⟩, hnext⟩ := Option.ite_none_right_eq_some.mp hnext
      simp only [addMemory, Option.some.injEq] at hnext
      split at hnext
      · cases hnext
        exact ⟨Or.inl ⟨rfl, rfl⟩, rfl, by simpa [Call.uuid] using hfresh, rfl⟩
      · cases hnext
        exact ⟨Or.inr ⟨rfl, .one huuid⟩, rfl, by simpa [Call.uuid] using hfresh, rfl⟩
  | addMemoryText content source now provider =>
      simp only [next, addMemoryText, Option.some.injEq] at hnext
      split at hnext
      · cases hnext
        exact ⟨Or.inl ⟨rfl, rfl⟩, rfl, by simp [Call.uuid], rfl⟩
      · rename_i chunks hchunks
        cases hnext
        refine ⟨Or.inr ⟨rfl, ?_⟩, rfl, by simp [Call.uuid], rfl⟩
        obtain ⟨plain, hplain, hembed⟩ := Option.bind_eq_some_iff.mp hchunks
        obtain ⟨hmade, hall⟩ := chunkByChars_cuts hplain
        rw [Event.pairs, embedChunks_eq hembed]
        refine .many ?_ ?_
        · intro id body hmem
          obtain ⟨chunk, hchunk, heq⟩ := List.mem_map.mp hmem
          cases heq
          obtain ⟨k, a, e, body, hcut, hslice, rfl⟩ := hmade chunk hchunk
          exact ⟨k, a, e, hcut, hslice, rfl⟩
        · intro k a e hcut
          obtain ⟨chunk, hchunk, hid⟩ := hall k a e hcut
          exact ⟨chunk.content, List.mem_map.mpr ⟨chunk, hchunk, by rw [hid]⟩⟩

/-! ## §4  Ids of two calls -/

section Ids

variable {c c' : Call E} {made made' : List (String × Text)} {body body' : Text}

theorem memoryPath_inj {source source' : String} (h : memoryPath source = memoryPath source') :
    source = source' := by
  have hlist := congrArg String.toList h
  simp only [memoryPath, toString, String.toList_append] at hlist
  exact String.toList_inj.mp (by simpa using hlist)

theorem not_isUuid_chunkId (source : String) (k e : ℕ) :
    isUuid (chunkId (memoryPath source) k e) = false := by
  have hhead : ∃ rest, (chunkId (memoryPath source) k e).toList = 'm' :: rest := by
    simp [chunkId, memoryPath, toString]
  obtain ⟨rest, hrest⟩ := hhead
  have hm : (('0' ≤ 'm' && 'm' ≤ '9') || ('a' ≤ 'm' && 'm' ≤ 'f') || 'm' = '-') = false := by
    decide
  simp only [isUuid, hrest, List.all_cons, hm, Bool.false_and, Bool.and_false]

/-- An id that two calls have in common comes from two texts of one source that share a
cut. -/
theorem Made.same_id (h : Made cfg c made) (h' : Made cfg c' made') (hmem : (id, body) ∈ made)
    (hmem' : (id, body') ∈ made') (huuid : ∀ id ∈ c.uuid, c'.uuid ≠ some id) :
    ∃ content content' source now now' p p' k a a' e,
      c = .addMemoryText content source now p ∧ c' = .addMemoryText content' source now' p' ∧
      Cut cfg content k a e ∧ Cut cfg content' k a' e ∧ slice content a e = some body ∧
      slice content' a' e = some body' := by
  cases h with
  | one hid =>
      cases h' with
      | one _ =>
          obtain ⟨rfl, -⟩ := Prod.mk.inj (List.mem_singleton.mp hmem)
          obtain ⟨rfl, -⟩ := Prod.mk.inj (List.mem_singleton.mp hmem')
          exact absurd rfl (huuid id rfl)
      | many hcuts' _ =>
          obtain ⟨rfl, -⟩ := Prod.mk.inj (List.mem_singleton.mp hmem)
          obtain ⟨k, a, e, -, -, rfl⟩ := hcuts' _ _ hmem'
          rw [not_isUuid_chunkId] at hid
          cases hid
  | @many content source now p made hcuts _ =>
      obtain ⟨k, a, e, hcut, hslice, rfl⟩ := hcuts _ _ hmem
      cases h' with
      | one hid =>
          obtain ⟨rfl, -⟩ := Prod.mk.inj (List.mem_singleton.mp hmem')
          rw [not_isUuid_chunkId] at hid
          cases hid
      | @many content' source' now' p' made' hcuts' _ =>
          obtain ⟨k', a', e', hcut', hslice', heq⟩ := hcuts' _ _ hmem'
          obtain ⟨hpath, rfl, rfl⟩ := chunkId_inj heq
          obtain rfl := memoryPath_inj hpath
          exact ⟨content, content', source, now, now', p, p', k, a, a', e, rfl, rfl, hcut, hcut',
            hslice, hslice'⟩

theorem Cut.slice_unique {content : Text} {k a a' e : ℕ} (h : Cut cfg content k a e)
    (h' : Cut cfg content k a' e) (hslice : slice content a e = some body)
    (hslice' : slice content a' e = some body') : body = body' := by
  obtain rfl := h'.1.unique h.1
  rw [hslice] at hslice'
  exact Option.some.inj hslice'

/-- The chunks of one call do not overwrite each other. -/
theorem Made.same_body (h : Made cfg c made) (hmem : (id, body) ∈ made)
    (hmem' : (id, body') ∈ made) : body = body' := by
  cases h with
  | one _ =>
      obtain ⟨-, rfl⟩ := Prod.mk.inj (List.mem_singleton.mp hmem)
      obtain ⟨-, rfl⟩ := Prod.mk.inj (List.mem_singleton.mp hmem')
      rfl
  | many hcuts _ =>
      obtain ⟨k, a, e, hcut, hslice, rfl⟩ := hcuts _ _ hmem
      obtain ⟨k', a', e', hcut', hslice', heq⟩ := hcuts _ _ hmem'
      obtain ⟨-, rfl, rfl⟩ := chunkId_inj heq
      exact hcut.slice_unique hcut' hslice hslice'

end Ids

/-- Two texts of one source differ and are cut at the same position into a chunk of the
same number. -/
def Clash (cfg : Chunking) : Call E → Call E → Prop
  | .addMemoryText content source _ _, .addMemoryText content' source' _ _ =>
      source = source' ∧ content ≠ content' ∧ SharedCut cfg content content'
  | _, _ => False

/-- No two calls that return clash. -/
def NoClash (cfg : Chunking) (tr : List (Event E)) : Prop :=
  tr.Pairwise fun ev ev' =>
    ev.returned.isSome = true → ev'.returned.isSome = true → ¬ Clash cfg ev.call ev'.call

/-- Every chunk that was stored is returned under its id with its content. -/
def Kept (tr : List (Event E)) (s : State E) : Prop :=
  ∀ ev ∈ tr, ∀ chunk ∈ ev.stored,
    ∃ found, getMemory s.store chunk.id = some found ∧ found.content = chunk.content

/-- Calls with different contents return different ids. -/
def IdsApart (tr : List (Event E)) : Prop :=
  tr.Pairwise fun ev ev' => ev.call.content ≠ ev'.call.content →
    ∀ ids ∈ ev.returned, ∀ ids' ∈ ev'.returned, ∀ id ∈ ids, id ∉ ids'

/-- The calls do not draw the same UUID. -/
def DrawApart (ev ev' : Event E) : Prop := ∀ id ∈ ev.call.uuid, ev'.call.uuid ≠ some id

theorem Event.Sound.pairs_of_stored (h : ev.Sound cfg) (hmem : chunk ∈ ev.stored) :
    ev.returned.isSome = true ∧ Made cfg ev.call ev.pairs ∧
      (chunk.id, chunk.content) ∈ ev.pairs := by
  rcases h with ⟨-, hnone⟩ | ⟨hids, hmade⟩
  · rw [hnone] at hmem
    cases hmem
  · exact ⟨by simp [hids], hmade, List.mem_map_of_mem hmem⟩

theorem Event.Sound.pairs_of_returned {ids : List String} (h : ev.Sound cfg)
    (hids : ev.returned = some ids) (hmem : id ∈ ids) :
    Made cfg ev.call ev.pairs ∧ ∃ body, (id, body) ∈ ev.pairs := by
  rcases h with ⟨hnone, -⟩ | ⟨hsome, hmade⟩
  · rw [hnone] at hids
    cases hids
  · rw [hsome] at hids
    cases hids
    obtain ⟨chunk, hchunk, rfl⟩ := List.mem_map.mp hmem
    exact ⟨hmade, chunk.content, List.mem_map_of_mem hchunk⟩

/-- Calls that clash return a common id, and only those, or calls with one content. -/
theorem idsApart_iff_not_clash (h : ev.Sound cfg) (h' : ev'.Sound cfg) (hapart : DrawApart ev ev') :
    (ev.call.content ≠ ev'.call.content →
      ∀ ids ∈ ev.returned, ∀ ids' ∈ ev'.returned, ∀ id ∈ ids, id ∉ ids') ↔
    (ev.returned.isSome = true → ev'.returned.isSome = true → ¬ Clash cfg ev.call ev'.call) := by
  constructor
  · intro hids hsome hsome' hclash
    rcases h with ⟨hnone, -⟩ | ⟨hret, hmade⟩
    · simp [hnone] at hsome
    rcases h' with ⟨hnone, -⟩ | ⟨hret', hmade'⟩
    · simp [hnone] at hsome'
    generalize hc : ev.call = c at *
    generalize hc' : ev'.call = c' at *
    generalize hp : ev.pairs = made at *
    generalize hp' : ev'.pairs = made' at *
    cases hmade with
    | one _ => exact hclash
    | many _ hall =>
        cases hmade' with
        | one _ => exact hclash
        | many _ hall' =>
            obtain ⟨rfl, hne, k, a, a', e, hcut, hcut'⟩ := hclash
            obtain ⟨body, hmem⟩ := hall k a e hcut
            obtain ⟨body', hmem'⟩ := hall' k a' e hcut'
            rw [← hp, Event.pairs] at hmem
            rw [← hp', Event.pairs] at hmem'
            obtain ⟨chunk, hchunk, heq⟩ := List.mem_map.mp hmem
            obtain ⟨chunk', hchunk', heq'⟩ := List.mem_map.mp hmem'
            refine hids hne _ hret _ hret' _ (List.mem_map.mpr ⟨chunk, hchunk, rfl⟩) ?_
            rw [(Prod.mk.inj heq).1, ← (Prod.mk.inj heq').1]
            exact List.mem_map_of_mem hchunk'
  · intro hclash hne ids hids ids' hids' id hmem hmem'
    obtain ⟨hmade, body, hpair⟩ := h.pairs_of_returned hids hmem
    obtain ⟨hmade', body', hpair'⟩ := h'.pairs_of_returned hids' hmem'
    obtain ⟨content, content', source, now, now', p, p', k, a, a', e, hcall, hcall', hcut, hcut',
      -, -⟩ := hmade.same_id hmade' hpair hpair' hapart
    refine hclash (by simp [Option.mem_def.mp hids]) (by simp [Option.mem_def.mp hids']) ?_
    rw [hcall, hcall'] at hne ⊢
    exact ⟨rfl, hne, k, a, a', e, hcut, hcut'⟩

/-! ## §5  Runs -/

theorem upsertAll_concat (store : Store E) (chunk : MemoryChunk E) :
    upsertAll store (chunks ++ [chunk]) = (upsertAll store chunks).insert chunk.id chunk := by
  simp [upsertAll, upsert]

/-- After a call, an id has a chunk of that call, or what it had before. -/
theorem getMemory_upsertAll (store : Store E) :
    (∃ chunk ∈ chunks, chunk.id = id ∧ getMemory (upsertAll store chunks) id = some chunk) ∨
      getMemory (upsertAll store chunks) id = getMemory store id := by
  induction chunks using List.reverseRecOn with
  | nil => exact Or.inr rfl
  | append_singleton chunks chunk ih =>
      rw [upsertAll_concat, getMemory, HashMap.lookup_insert_eq]
      split
      · rename_i heq
        exact Or.inl ⟨chunk, by simp, heq.symm, rfl⟩
      · rcases ih with ⟨found, hfound, hid, hget⟩ | hget
        · exact Or.inl ⟨found, List.mem_append_left _ hfound, hid, hget⟩
        · exact Or.inr hget

theorem getMemory_stored (store : Store E) (hmem : chunk ∈ chunks) :
    ∃ found ∈ chunks, found.id = chunk.id ∧
      getMemory (upsertAll store chunks) chunk.id = some found := by
  induction chunks using List.reverseRecOn with
  | nil => cases hmem
  | append_singleton chunks last ih =>
      rw [upsertAll_concat, getMemory, HashMap.lookup_insert_eq]
      split
      · rename_i heq
        exact ⟨last, by simp, heq.symm, rfl⟩
      · rename_i hne
        rcases List.mem_append.mp hmem with hmem | hmem
        · obtain ⟨found, hfound, hid, hget⟩ := ih hmem
          exact ⟨found, List.mem_append_left _ hfound, hid, hget⟩
        · rw [List.mem_singleton.mp hmem] at hne
          exact absurd rfl hne

structure Inv (cfg : Chunking) (tr : List (Event E)) (s : State E) : Prop where
  sound : ∀ ev ∈ tr, ev.Sound cfg
  drawn : ∀ ev ∈ tr, ∀ id ∈ ev.call.uuid, id ∈ s.uuids
  apart : tr.Pairwise DrawApart

theorem Inv.step (h : Inv cfg tr s) (hstep : Step E cfg s ev s') : Inv cfg (tr ++ [ev]) s' := by
  obtain ⟨hsound, -, hfresh, huuids⟩ := step_cases hstep
  refine ⟨?_, ?_, ?_⟩
  · intro ev' hmem
    rcases List.mem_append.mp hmem with hmem | hmem
    · exact h.sound ev' hmem
    · rwa [List.mem_singleton.mp hmem]
  · intro ev' hmem id hid
    rw [huuids, List.mem_append]
    rcases List.mem_append.mp hmem with hmem | hmem
    · exact Or.inr (h.drawn ev' hmem id hid)
    · rw [List.mem_singleton.mp hmem] at hid
      exact Or.inl (Option.mem_toList.mpr hid)
  · refine List.pairwise_append.mpr ⟨h.apart, List.pairwise_singleton .., ?_⟩
    intro ev' hmem ev'' hlast id hid hid'
    rw [List.mem_singleton.mp hlast] at hid'
    exact hfresh id hid' (h.drawn ev' hmem id hid)

theorem inv_of_runs (run : Runs (Step E cfg) (start E) tr s) : Inv cfg tr s := by
  induction run with
  | nil => exact ⟨by simp, by simp, .nil⟩
  | snoc _ hstep ih => exact ih.step hstep

/-- A call that clashes with no earlier one keeps what was stored. -/
theorem Inv.kept (h : Inv cfg tr s) (hkept : Kept tr s) (hstep : Step E cfg s ev s')
    (hclash : ∀ ev' ∈ tr, ev'.returned.isSome = true → ev.returned.isSome = true →
      ¬ Clash cfg ev'.call ev.call) : Kept (tr ++ [ev]) s' := by
  have hinv := h.step hstep
  obtain ⟨hsound, hstore, -, -⟩ := step_cases hstep
  intro ev' hmem chunk hchunk
  rw [hstore]
  rcases List.mem_append.mp hmem with hold | hnew
  · have hcases : (∃ found ∈ ev.stored, found.id = chunk.id ∧
          getMemory (upsertAll s.store ev.stored) chunk.id = some found) ∨
        getMemory (upsertAll s.store ev.stored) chunk.id = getMemory s.store chunk.id :=
      getMemory_upsertAll s.store
    rcases hcases with ⟨found, hfound, hid, hget⟩ | hget
    · -- a new chunk with the id of an old one: the two calls have the same content
      refine ⟨found, hget, ?_⟩
      obtain ⟨hret, hmade, hpair⟩ := hsound.pairs_of_stored hfound
      obtain ⟨hret', hmade', hpair'⟩ := (h.sound ev' hold).pairs_of_stored hchunk
      have hapart : DrawApart ev' ev :=
        (List.pairwise_append.mp hinv.apart).2.2 ev' hold ev (List.mem_singleton_self _)
      rw [hid] at hpair
      obtain ⟨content, content', source, now, now', p, p', k, a, a', e, hcall, hcall', hcut,
        hcut', hslice, hslice'⟩ := hmade'.same_id hmade hpair' hpair hapart
      have hsame : content = content' := by
        by_contra hne
        refine hclash ev' hold hret' hret ?_
        rw [hcall, hcall']
        exact ⟨rfl, hne, k, a, a', e, hcut, hcut'⟩
      subst hsame
      exact (hcut.slice_unique hcut' hslice hslice').symm
    · rw [hget]
      exact hkept ev' hold chunk hchunk
  · rw [List.mem_singleton.mp hnew] at hchunk
    obtain ⟨found, hfound, hid, hget⟩ := getMemory_stored s.store hchunk
    refine ⟨found, hget, ?_⟩
    obtain ⟨-, hmade, hpair⟩ := hsound.pairs_of_stored hfound
    obtain ⟨-, -, hpair'⟩ := hsound.pairs_of_stored hchunk
    rw [hid] at hpair
    exact hmade.same_body hpair hpair'

theorem kept_of_noClash (run : Runs (Step E cfg) (start E) tr s) (h : NoClash cfg tr) :
    Kept tr s := by
  induction run with
  | nil => exact fun ev hmem => nomatch hmem
  | snoc run hstep ih =>
      obtain ⟨hbefore, -, hlast⟩ := List.pairwise_append.mp h
      exact (inv_of_runs run).kept (ih hbefore) hstep fun ev' hmem =>
        hlast ev' hmem _ (List.mem_singleton_self _)

/-- Stored memories are kept and ids are apart just when no two calls clash. -/
theorem memories_kept_iff (run : Runs (Step E cfg) (start E) tr s) :
    Kept tr s ∧ IdsApart tr ↔ NoClash cfg tr := by
  have hinv := inv_of_runs run
  have hpair {ev ev' : Event E} (hmem : ev ∈ tr) (hmem' : ev' ∈ tr) (hapart : DrawApart ev ev') :=
    idsApart_iff_not_clash (hinv.sound ev hmem) (hinv.sound ev' hmem') hapart
  constructor
  · rintro ⟨-, hids⟩
    exact (hids.and hinv.apart).imp_of_mem fun hmem hmem' h => (hpair hmem hmem' h.2).mp h.1
  · intro hclash
    refine ⟨kept_of_noClash run hclash, ?_⟩
    exact (hclash.and hinv.apart).imp_of_mem fun hmem hmem' h => (hpair hmem hmem' h.2).mpr h.1

end Model

/-! ## §6  Two notes -/

def utf8 (s : String) : Text := s.toUTF8.data.toList

/-- Two notes of the same length from one source. -/
def overwriting : List (Call Unit) :=
  [.addMemoryText (utf8 "alpha") "notes" 0 none, .addMemoryText (utf8 "omega") "notes" 1 none]

theorem note_overwritten :
    ∃ tr s found, Runs (Step Unit .default) (start Unit) tr s ∧
      tr.map (·.returned) = [some ["memory:notes:0:5"], some ["memory:notes:0:5"]] ∧
      tr.map (·.call.content) = [utf8 "alpha", utf8 "omega"] ∧
      getMemory s.store "memory:notes:0:5" = some found ∧ found.content = utf8 "omega" := by
  have run : Runs (Step Unit .default) (start Unit) _ _ :=
    runs_of_exec_isSome overwriting (by decide)
  exact ⟨_, _, _, run, by decide, by decide, rfl, by decide⟩

/-- The same notes from two sources. -/
theorem memories_kept_iff_two_sources :
    ∃ tr s, Runs (Step Unit .default) (start Unit) tr s ∧ tr.length = 2 ∧ Kept tr s ∧
      IdsApart tr := by
  have run : Runs (Step Unit .default) (start Unit) _ _ := runs_of_exec_isSome
    [.addMemoryText (utf8 "alpha") "notes" 0 none, .addMemoryText (utf8 "omega") "journal" 1 none]
    (by decide)
  refine ⟨_, _, run, by decide, (memories_kept_iff run).mpr ?_⟩
  refine List.pairwise_pair.mpr ?_
  rintro - - ⟨hsource, -⟩
  exact absurd hsource (by decide)

end Oclaw.MemoryCore
