import Mathlib.Algebra.Group.Nat.Defs
import Oclaw.Lib.FirstMin
import Oclaw.Lib.HashMap
import Oclaw.Lib.Recency
import Oclaw.Lib.Transition

/-!
# The cache of embeddings

`EmbeddingCache` (`crates/memory-core/src/embedding_cache.rs`): embeddings by the hash of
their text, each with the reading of a counter at its last use. A full cache evicts the
entry used longest ago before it looks whether the text to insert is there already.
-/

namespace Oclaw.MemoryCore

open Oclaw.Lib

/-! ## §1  The cache -/

namespace EmbeddingCache

structure CacheEntry (E : Type) : Type where
  embedding : E
  lastAccess : ℕ
deriving DecidableEq

end EmbeddingCache

open EmbeddingCache in
structure EmbeddingCache (κ E : Type) : Type where
  cache : HashMap κ (CacheEntry E)
  maxEntries : ℕ
  hits : ℕ
  misses : ℕ
  accessCounter : ℕ

namespace EmbeddingCache

/-- The order in which a hash map is gone through: any arrangement of its entries. -/
structure IterationOrder (κ E : Type) : Type where
  arrange : List (κ × CacheEntry E) → List (κ × CacheEntry E)
  perm : ∀ es, (arrange es).Perm es

def IterationOrder.asStored (κ E : Type) : IterationOrder κ E := ⟨id, fun _ => List.Perm.refl _⟩

section Model

variable {κ E : Type}

section Calls

variable [DecidableEq κ]

def new (κ E : Type) (maxEntries : ℕ) : EmbeddingCache κ E := ⟨∅, maxEntries, 0, 0, 0⟩

/-- `access_counter += 1`, which panics when it overflows. -/
def advance (counter : ℕ) : Option ℕ := if counter + 1 < 2 ^ 64 then some (counter + 1) else none

/-- `fetch_add(1)`, which wraps. -/
def fetchAdd (counter : ℕ) : ℕ := (counter + 1) % 2 ^ 64

def get (hashText : String → κ) (c : EmbeddingCache κ E) (text : String) :
    Option (Option E × EmbeddingCache κ E) :=
  let key := hashText text
  match c.cache.lookup key with
  | some entry => do
      let counter ← advance c.accessCounter
      return (some entry.embedding,
        { c with
          cache := c.cache.insert key { entry with lastAccess := counter }
          hits := fetchAdd c.hits
          accessCounter := counter })
  | none => some (none, { c with misses := fetchAdd c.misses })

/-- `min_by_key(last_access)`: of several least entries the first. -/
def evictLru (order : IterationOrder κ E) (cache : HashMap κ (CacheEntry E)) :
    HashMap κ (CacheEntry E) :=
  match (order.arrange cache.toPairs).argmin (fun e => e.2.lastAccess) with
  | some oldest => cache.erase oldest.1
  | none => cache

def insert (hashText : String → κ) (order : IterationOrder κ E) (c : EmbeddingCache κ E)
    (text : String) (embedding : E) : Option (EmbeddingCache κ E) := do
  let cache :=
    if c.maxEntries ≤ c.cache.entries.length then evictLru order c.cache else c.cache
  let counter ← advance c.accessCounter
  return { c with
    cache := cache.insert (hashText text) ⟨embedding, counter⟩
    accessCounter := counter }

/-- A call; an insertion has the order in which it goes through the map. -/
inductive Call (κ E : Type) : Type where
  | get (text : String)
  | insert (text : String) (embedding : E) (order : IterationOrder κ E)

def Call.text : Call κ E → String
  | .get text | .insert text _ _ => text

/-- A call with what `get` returned and the caches before and behind it. -/
structure Event (κ E : Type) : Type where
  call : Call κ E
  found : Option E
  before : EmbeddingCache κ E
  after : EmbeddingCache κ E

def next (hashText : String → κ) (c : EmbeddingCache κ E) (call : Call κ E) :
    Option (Event κ E × EmbeddingCache κ E) :=
  match call with
  | .get text => (get hashText c text).map (fun r => (⟨call, r.1, c, r.2⟩, r.2))
  | .insert text embedding order =>
      (insert hashText order c text embedding).map (fun c' => (⟨call, none, c, c'⟩, c'))

abbrev Step (hashText : String → κ) : EmbeddingCache κ E → Event κ E → EmbeddingCache κ E → Prop :=
  Induced (next hashText)

end Calls

/-! ## §2  What the cache should hold -/

/-- The text that a call uses: it is inserted or found. -/
def Event.used (ev : Event κ E) : Option String :=
  match ev.call with
  | .get text => ev.found.map (fun _ => text)
  | .insert text _ _ => some text

def Event.inserted (text : String) (ev : Event κ E) : Option E :=
  match ev.call with
  | .get _ => none
  | .insert text' embedding _ => if text' = text then some embedding else none

/-- The texts by their last use. -/
def byUse (tr : List (Event κ E)) : List String := recency (tr.filterMap Event.used)

/-- The embedding of the last insertion of a text. -/
def lastInserted (tr : List (Event κ E)) (text : String) : Option E :=
  (tr.filterMap (Event.inserted text)).getLast?

/-- The cache has the texts used last, as many as it has places, and of each the embedding of
its last insertion. -/
def IsLru (hashText : String → κ) (maxEntries : ℕ) (tr : List (Event κ E))
    (c : EmbeddingCache κ E) : Prop :=
  (c.cache.toPairs.map (fun e => (e.1, some e.2.embedding))).Perm
    (((byUse tr).take maxEntries).map (fun text => (hashText text, lastInserted tr text)))

/-- The insertion of a text that is in the cache removes no other. -/
def Event.KeepsOthers (hashText : String → κ) (ev : Event κ E) : Prop :=
  match ev.call with
  | .get _ => True
  | .insert text _ _ => hashText text ∈ ev.before.cache →
      ∀ k ∈ ev.before.cache, k ∈ ev.after.cache

/-- All along the run. -/
def LruThroughout (hashText : String → κ) (maxEntries : ℕ) (tr : List (Event κ E)) : Prop :=
  ∀ tr₁ ev tr₂, tr = tr₁ ++ ev :: tr₂ →
    IsLru hashText maxEntries (tr₁ ++ [ev]) ev.after ∧ ev.KeepsOthers hashText

/-- A text is inserted again into a full cache in which another has not been used for
longer. -/
def Event.Displaces [DecidableEq κ] (hashText : String → κ) (ev : Event κ E) : Prop :=
  match ev.call with
  | .get _ => False
  | .insert text _ _ => ev.before.maxEntries ≤ ev.before.cache.entries.length ∧
      ∃ entry, ev.before.cache.lookup (hashText text) = some entry ∧
        ∃ k other, ev.before.cache.lookup k = some other ∧ other.lastAccess < entry.lastAccess

/-! ## §3  The entries in the order of their use -/

variable {hashText : String → κ} {maxEntries : ℕ} {tr tr' : List (Event κ E)} {ev : Event κ E}
variable {c c' : EmbeddingCache κ E} {es rest : List (κ × CacheEntry E)} {text other : String}
variable {embedding : E}

/-- What the invariant of a run is about: the entries by the counter are the texts by their
use. -/
structure Sorted (hashText : String → κ) (maxEntries : ℕ) (tr : List (Event κ E))
    (c : EmbeddingCache κ E) (es : List (κ × CacheEntry E)) : Prop where
  size : c.maxEntries = maxEntries
  perm : c.cache.toPairs.Perm es
  sorted : es.Pairwise (fun a b => b.2.lastAccess < a.2.lastAccess)
  bound : ∀ e ∈ es, e.2.lastAccess ≤ c.accessCounter
  texts : es.map (fun e => (e.1, some e.2.embedding)) =
    ((byUse tr).take maxEntries).map (fun text => (hashText text, lastInserted tr text))

theorem sorted_new : Sorted hashText maxEntries ([] : List (Event κ E)) (new κ E maxEntries) [] :=
  ⟨rfl, List.Perm.nil, List.Pairwise.nil, by simp, by simp [byUse, recency]⟩

theorem Sorted.isLru (h : Sorted hashText maxEntries tr c es) : IsLru hashText maxEntries tr c := by
  rw [IsLru, ← h.texts]
  exact h.perm.map _

theorem Sorted.length (h : Sorted hashText maxEntries tr c es) :
    es.length = c.cache.entries.length := by
  rw [← h.perm.length_eq, HashMap.length_toPairs]

theorem Sorted.length_eq_min (h : Sorted hashText maxEntries tr c es) :
    es.length = min maxEntries (byUse tr).length := by
  have hlen := congrArg List.length h.texts
  simpa using hlen

theorem byUse_concat (hused : ev.used = some text) :
    byUse (tr ++ [ev]) = touch text (byUse tr) := by
  rw [byUse, List.filterMap_append, List.filterMap_cons_some hused, List.filterMap_nil,
    recency_concat]
  rfl

theorem byUse_concat_none (hused : ev.used = none) : byUse (tr ++ [ev]) = byUse tr := by
  rw [byUse, List.filterMap_append, List.filterMap_cons_none hused, List.filterMap_nil,
    List.append_nil]
  rfl

/-- Texts that were used stay in the order of use. -/
theorem length_byUse_le (tr : List (Event κ E)) (ev : Event κ E) :
    (byUse tr).length ≤ (byUse (tr ++ [ev])).length := by
  refine (List.subperm_of_subset (nodup_recency _) ?_).length_le
  intro text hmem
  have huses : text ∈ tr.filterMap Event.used := mem_recency.mp hmem
  refine mem_recency.mpr ?_
  rw [List.filterMap_append]
  exact List.mem_append_left _ huses

theorem text_of_used {text : String} (h : ev.used = some text) : ev.call.text = text := by
  rw [Event.used] at h
  cases hcall : ev.call with
  | get text' =>
      rw [hcall] at h
      obtain ⟨_, -, rfl⟩ := Option.map_eq_some_iff.mp h
      rfl
  | insert text' _ _ =>
      rw [hcall] at h
      cases h
      rfl

theorem lastInserted_concat (tr : List (Event κ E)) (ev : Event κ E) (text : String) :
    lastInserted (tr ++ [ev]) text = (ev.inserted text).or (lastInserted tr text) := by
  rw [lastInserted, List.filterMap_append]
  cases hins : ev.inserted text with
  | none => rw [List.filterMap_cons_none hins, List.filterMap_nil, List.append_nil]; rfl
  | some embedding => rw [List.filterMap_cons_some hins]; simp

theorem mem_cache_iff {m : HashMap κ (CacheEntry E)} {k : κ} :
    k ∈ m ↔ k ∈ m.toPairs.map Prod.fst := by
  rw [HashMap.toPairs, List.map_map]
  exact Iff.rfl

/-- What a call that uses a text leaves behind it: the new entry in front of others. -/
structure Use (c c' : EmbeddingCache κ E) (hashText : String → κ) (text : String) (embedding : E)
    (rest : List (κ × CacheEntry E)) : Prop where
  size : c'.maxEntries = c.maxEntries
  counter : c'.accessCounter = c.accessCounter + 1
  perm : c'.cache.toPairs.Perm ((hashText text, ⟨embedding, c'.accessCounter⟩) :: rest)

theorem Use.congr {rest' : List (κ × CacheEntry E)} (h : Use c c' hashText text embedding rest)
    (hrest : rest.Perm rest') : Use c c' hashText text embedding rest' :=
  ⟨h.size, h.counter, h.perm.trans (hrest.cons _)⟩

theorem Use.mem {k : κ} (huse : Use c c' hashText text embedding rest)
    (hrest : ∀ e ∈ rest, e ∈ c.cache.toPairs) (h : k ∈ c'.cache) :
    k = hashText text ∨ k ∈ c.cache := by
  rw [mem_cache_iff, (huse.perm.map _).mem_iff, List.map_cons, List.mem_cons] at h
  refine h.imp_right fun h => ?_
  obtain ⟨e, he, rfl⟩ := List.mem_map.mp h
  exact mem_cache_iff.mpr (List.mem_map_of_mem (hrest e he))

/-- The last insertions behind a call that uses a text. -/
structure Recorded (tr : List (Event κ E)) (ev : Event κ E) (text : String) (embedding : E) :
    Prop where
  used : ev.used = some text
  last : lastInserted (tr ++ [ev]) text = some embedding
  others : ∀ other ≠ text, lastInserted (tr ++ [ev]) other = lastInserted tr other

theorem recorded_insert {order : IterationOrder κ E}
    (hcall : ev.call = .insert text embedding order) : Recorded tr ev text embedding := by
  refine ⟨by rw [Event.used, hcall], ?_, ?_⟩
  · rw [lastInserted_concat, Event.inserted, hcall]
    simp
  · intro other hne
    rw [lastInserted_concat, Event.inserted, hcall]
    simp [Ne.symm hne]

theorem lastInserted_get (hcall : ev.call = .get text) (other : String) :
    lastInserted (tr ++ [ev]) other = lastInserted tr other := by
  rw [lastInserted_concat, Event.inserted, hcall]
  rfl

/-- A use keeps the order when the entries left are those of the texts left. -/
theorem Sorted.use (h : Sorted hashText maxEntries tr c es)
    (huse : Use c c' hashText text embedding rest) (hrec : Recorded tr ev text embedding)
    (hrest : rest.Sublist es) {left : List String} (hout : text ∉ left)
    (hleft : rest.map (fun e => (e.1, some e.2.embedding)) =
      left.map (fun text => (hashText text, lastInserted tr text)))
    (htake : (touch text (byUse tr)).take maxEntries = text :: left) :
    Sorted hashText maxEntries (tr ++ [ev]) c'
      ((hashText text, ⟨embedding, c'.accessCounter⟩) :: rest) := by
  have hbound : ∀ e ∈ rest, e.2.lastAccess < c'.accessCounter := by
    intro e he
    have := h.bound e (hrest.subset he)
    rw [huse.counter]
    omega
  refine ⟨huse.size.trans h.size, huse.perm, ?_, ?_, ?_⟩
  · exact List.pairwise_cons.mpr ⟨hbound, h.sorted.sublist hrest⟩
  · exact List.forall_mem_cons.mpr ⟨Nat.le_refl _, fun e he => Nat.le_of_lt (hbound e he)⟩
  · rw [byUse_concat hrec.used, htake, List.map_cons, List.map_cons, hleft, hrec.last]
    congr 1
    apply List.map_congr_left
    intro other hother
    rw [hrec.others other (ne_of_mem_of_not_mem hother hout)]

/-- The keys are the hashes of the texts. -/
theorem Sorted.keys (h : Sorted hashText maxEntries tr c es) :
    es.map Prod.fst = ((byUse tr).take maxEntries).map hashText := by
  have hfst := congrArg (List.map Prod.fst) h.texts
  simpa [List.map_map, Function.comp_def] using hfst

/-- A full cache has an entry to evict. -/
theorem Sorted.full (h : Sorted hashText maxEntries tr c es) (hmax : 0 < maxEntries)
    (hfull : c.maxEntries ≤ c.cache.entries.length) :
    ∃ newer older, es = newer ++ [older] ∧ newer.length + 1 = maxEntries ∧
      maxEntries ≤ (byUse tr).length := by
  have hlen := h.length
  have hmin := h.length_eq_min
  rw [h.size] at hfull
  rcases es.eq_nil_or_concat' with rfl | ⟨newer, older, rfl⟩
  · simp at hlen
    omega
  · refine ⟨newer, older, rfl, ?_, by omega⟩
    rw [List.length_append, List.length_singleton] at hlen hmin
    omega

/-- The last entry is the one used longest ago. -/
theorem Sorted.older_lt {newer : List (κ × CacheEntry E)} {older e : κ × CacheEntry E}
    (h : Sorted hashText maxEntries tr c (newer ++ [older])) (he : e ∈ newer) :
    older.2.lastAccess < e.2.lastAccess :=
  (List.pairwise_append.mp h.sorted).2.2 e he older (by simp)

/-- The text is not confused with those used before. -/
def Apart (hashText : String → κ) (tr : List (Event κ E)) (text : String) : Prop :=
  ∀ other ∈ byUse tr, hashText other = hashText text → other = text

/-- The texts of the run have different hashes. -/
def HashesApart (hashText : String → κ) (tr : List (Event κ E)) : Prop :=
  ∀ ev ∈ tr, ∀ ev' ∈ tr, hashText ev.call.text = hashText ev'.call.text →
    ev.call.text = ev'.call.text

theorem HashesApart.mono (h : HashesApart hashText tr) (hsub : tr' ⊆ tr) :
    HashesApart hashText tr' :=
  fun ev hev ev' hev' => h ev (hsub hev) ev' (hsub hev')

theorem HashesApart.apart (h : HashesApart hashText (tr ++ [ev])) :
    Apart hashText tr ev.call.text := by
  intro other hother heq
  rw [byUse, mem_recency] at hother
  obtain ⟨ev', hev', hused⟩ := List.mem_filterMap.mp hother
  rw [← text_of_used hused] at heq ⊢
  exact h ev' (by simp [hev']) ev (by simp) heq

variable [DecidableEq κ]

theorem Sorted.mem_iff (h : Sorted hashText maxEntries tr c es) {k : κ} {entry : CacheEntry E} :
    (k, entry) ∈ es ↔ c.cache.lookup k = some entry := by
  rw [← h.perm.mem_iff, HashMap.mem_toPairs]

theorem Sorted.found (h : Sorted hashText maxEntries tr c es) (hapart : Apart hashText tr text)
    {entry : CacheEntry E} (hfound : c.cache.lookup (hashText text) = some entry) :
    text ∈ (byUse tr).take maxEntries ∧ lastInserted tr text = some entry.embedding := by
  have hmem : (hashText text, some entry.embedding) ∈
      es.map (fun e => (e.1, some e.2.embedding)) :=
    List.mem_map_of_mem (h.mem_iff.mpr hfound)
  rw [h.texts] at hmem
  obtain ⟨other, hother, heq⟩ := List.mem_map.mp hmem
  obtain ⟨hhash, hemb⟩ := Prod.mk.inj heq
  obtain rfl := hapart other (List.mem_of_mem_take hother) hhash
  exact ⟨hother, hemb⟩

/-- The entries but that of one text. -/
theorem Sorted.filter (h : Sorted hashText maxEntries tr c es) (hapart : Apart hashText tr text) :
    (es.filter (fun e => e.1 ≠ hashText text)).map (fun e => (e.1, some e.2.embedding)) =
      (((byUse tr).take maxEntries).filter (· ≠ text)).map
        (fun text => (hashText text, lastInserted tr text)) := by
  have hfilter := congrArg (List.filter (fun e : κ × Option E => e.1 ≠ hashText text)) h.texts
  rw [List.filter_map, List.filter_map] at hfilter
  refine Eq.trans hfilter (congrArg _ (List.filter_congr ?_))
  intro other hother
  have hiff : hashText other = hashText text ↔ other = text :=
    ⟨hapart other (List.mem_of_mem_take hother), fun heq => heq ▸ rfl⟩
  simp [hiff]

/-- A text that is there, or that there is room for, moves to the front. -/
theorem Sorted.touch (h : Sorted hashText maxEntries tr c es)
    (huse : Use c c' hashText text embedding (es.filter (fun e => e.1 ≠ hashText text)))
    (hrec : Recorded tr ev text embedding) (hapart : Apart hashText tr text)
    (hroom : text ∈ (byUse tr).take maxEntries ∨ (byUse tr).length < maxEntries) :
    Sorted hashText maxEntries (tr ++ [ev]) c'
      ((hashText text, ⟨embedding, c'.accessCounter⟩) ::
        es.filter (fun e => e.1 ≠ hashText text)) := by
  refine h.use huse hrec List.filter_sublist (by simp) (h.filter hapart) ?_
  rcases hroom with hmem | hlen
  · exact take_touch_of_mem (nodup_recency _) hmem
  · exact take_touch_of_room hlen

/-! ## §4  Steps -/

theorem advance_eq_some {n counter : ℕ} (h : advance counter = some n) : n = counter + 1 := by
  obtain ⟨-, heq⟩ := Option.ite_none_right_eq_some.mp h
  exact (Option.some.inj heq).symm

/-- The entries behind the eviction test. -/
def room (order : IterationOrder κ E) (c : EmbeddingCache κ E) : HashMap κ (CacheEntry E) :=
  if c.maxEntries ≤ c.cache.entries.length then evictLru order c.cache else c.cache

/-- What one step does. -/
inductive Effect (hashText : String → κ) (c c' : EmbeddingCache κ E) :
    Call κ E → Option E → Prop where
  | hit {text : String} {entry : CacheEntry E} : c.cache.lookup (hashText text) = some entry →
      Use c c' hashText text entry.embedding
        (c.cache.toPairs.filter (fun e => e.1 ≠ hashText text)) →
      Effect hashText c c' (.get text) (some entry.embedding)
  | miss {text : String} : c'.cache = c.cache → c'.maxEntries = c.maxEntries →
      c'.accessCounter = c.accessCounter → Effect hashText c c' (.get text) none
  | insert {text : String} {embedding : E} {order : IterationOrder κ E} :
      Use c c' hashText text embedding
        ((room order c).toPairs.filter (fun e => e.1 ≠ hashText text)) →
      Effect hashText c c' (.insert text embedding order) none

theorem step_cases (h : Step hashText c ev c') :
    ev.before = c ∧ ev.after = c' ∧ Effect hashText c c' ev.call ev.found := by
  obtain ⟨call, hnext⟩ := h
  cases call with
  | get text =>
      obtain ⟨⟨found, c₁⟩, hget, heq⟩ := Option.map_eq_some_iff.mp hnext
      cases heq
      refine ⟨rfl, rfl, ?_⟩
      simp only [EmbeddingCache.get] at hget
      split at hget
      · rename_i entry hfound
        obtain ⟨counter, hcounter, hget⟩ := Option.bind_eq_some_iff.mp hget
        cases hget
        refine .hit hfound ⟨rfl, advance_eq_some hcounter, ?_⟩
        rw [HashMap.toPairs_insert]
      · cases hget
        exact .miss rfl rfl rfl
  | insert text embedding order =>
      obtain ⟨c₁, hinsert, heq⟩ := Option.map_eq_some_iff.mp hnext
      cases heq
      refine ⟨rfl, rfl, ?_⟩
      obtain ⟨counter, hcounter, hinsert⟩ := Option.bind_eq_some_iff.mp hinsert
      cases hinsert
      refine .insert ⟨rfl, advance_eq_some hcounter, ?_⟩
      rw [HashMap.toPairs_insert]
      rfl

/-- The entry evicted is the last in the order of use. -/
theorem Sorted.evict {older : κ × CacheEntry E}
    (h : Sorted hashText maxEntries tr c (es ++ [older])) (order : IterationOrder κ E) :
    (evictLru order c.cache).toPairs.Perm es := by
  have hperm := (order.perm c.cache.toPairs).trans h.perm
  have hleast : (order.arrange c.cache.toPairs).argmin (fun e => e.2.lastAccess) = some older := by
    cases hmin : (order.arrange c.cache.toPairs).argmin (fun e => e.2.lastAccess) with
    | none =>
        rw [List.argmin_eq_none.mp hmin] at hperm
        simpa using hperm.length_eq
    | some e =>
        have hmem := hperm.mem_iff.mp (List.argmin_mem hmin)
        have hle := List.le_of_mem_argmin (hperm.mem_iff.mpr (by simp : older ∈ es ++ [older])) hmin
        rcases List.mem_append.mp hmem with hmem | hmem
        · have hlt := (List.pairwise_append.mp h.sorted).2.2 e hmem older (by simp)
          exact absurd hle (Nat.not_le.mpr hlt)
        · rw [List.mem_singleton.mp hmem]
  have hkeys : ((es ++ [older]).map Prod.fst).Nodup := by
    refine (h.perm.map Prod.fst).nodup_iff.mp ?_
    have hnodup := c.cache.nodupKeys
    rw [HashMap.toPairs, List.map_map]
    exact hnodup
  rw [evictLru, hleast]
  simp only [HashMap.toPairs_erase]
  refine (h.perm.filter _).trans (List.Perm.of_eq ?_)
  rw [List.map_append, List.nodup_append] at hkeys
  rw [List.filter_append, List.filter_cons_of_neg (by simp), List.filter_nil, List.append_nil,
    List.filter_eq_self]
  intro e he
  simpa using hkeys.2.2 e.1 (List.mem_map_of_mem he) older.1 (by simp)

theorem Sorted.perm_filter (h : Sorted hashText maxEntries tr c es) (k : κ) :
    (c.cache.toPairs.filter (fun e => e.1 ≠ k)).Perm (es.filter (fun e => e.1 ≠ k)) :=
  h.perm.filter _

/-- The use of a text removes no other from the cache when nothing is evicted. -/
theorem Use.keeps
    (huse : Use c c' hashText text embedding (es.filter (fun e => e.1 ≠ hashText text)))
    (hperm : c.cache.toPairs.Perm es) : ∀ k ∈ c.cache, k ∈ c'.cache := by
  intro k hk
  rw [mem_cache_iff, (hperm.map _).mem_iff] at hk
  rw [mem_cache_iff, (huse.perm.map _).mem_iff, List.map_cons, List.mem_cons]
  by_cases heq : k = hashText text
  · exact Or.inl heq
  · obtain ⟨e, he, rfl⟩ := List.mem_map.mp hk
    exact Or.inr (List.mem_map_of_mem (List.mem_filter.mpr ⟨he, by simpa using heq⟩))

/-- A text that is not in the cache is not among the texts used last. -/
theorem Sorted.notMem (h : Sorted hashText maxEntries tr c es)
    (hnone : c.cache.lookup (hashText text) = none) : text ∉ (byUse tr).take maxEntries := by
  intro hmem
  have hkey := List.mem_map_of_mem (f := hashText) hmem
  rw [← h.keys] at hkey
  obtain ⟨e, he, hkey⟩ := List.mem_map.mp hkey
  rw [← hkey, h.mem_iff.mp he] at hnone
  cases hnone

/-- A new text takes the place of the older entry of a full cache. -/
theorem Sorted.newcomer {order : IterationOrder κ E} {newer : List (κ × CacheEntry E)}
    {older : κ × CacheEntry E} (h : Sorted hashText maxEntries tr c (newer ++ [older]))
    (hmax : 0 < maxEntries) (hmany : maxEntries ≤ (byUse tr).length)
    (hfound : c.cache.lookup (hashText text) = none) (hrec : Recorded tr ev text embedding)
    (huse : Use c c' hashText text embedding
      ((evictLru order c.cache).toPairs.filter (fun e => e.1 ≠ hashText text))) :
    ∃ es', Sorted hashText maxEntries (tr ++ [ev]) c' es' := by
  have hout := h.notMem hfound
  have hkeep : newer.filter (fun e => e.1 ≠ hashText text) = newer := by
    rw [List.filter_eq_self]
    intro e he
    have hmem := h.mem_iff.mp (List.mem_append_left [older] he)
    simp only [ne_eq, decide_not, Bool.not_eq_eq_eq_not, Bool.not_true, decide_eq_false_iff_not]
    intro heq
    rw [← heq, hmem] at hfound
    cases hfound
  have hevict := (h.evict order).filter (fun e => e.1 ≠ hashText text)
  rw [hkeep] at hevict
  obtain ⟨places, rfl⟩ : ∃ places, maxEntries = places + 1 := ⟨maxEntries - 1, by omega⟩
  have htake : ((byUse tr).take (places + 1)).dropLast = (byUse tr).take places := by
    rw [List.dropLast_eq_take, List.length_take, Nat.min_eq_left hmany, Nat.add_sub_cancel,
      List.take_take, Nat.min_eq_left (Nat.le_succ _)]
  refine ⟨_, h.use (huse.congr hevict) hrec (List.sublist_append_left _ _)
    (?_ : text ∉ (byUse tr).take places) ?_ ?_⟩
  · exact fun hmem => hout (List.take_subset_take_left _ (Nat.le_succ _) hmem)
  · have htexts := congrArg List.dropLast h.texts
    rw [List.map_append, List.map_singleton, List.dropLast_concat, ← List.map_dropLast,
      htake] at htexts
    exact htexts
  · exact take_touch_of_notMem hout

/-- What is left for the text that is the older entry of a full cache itself. -/
theorem Sorted.evict_self {order : IterationOrder κ E} {newer : List (κ × CacheEntry E)}
    {older : κ × CacheEntry E} (h : Sorted hashText maxEntries tr c (newer ++ [older]))
    (hself : older.1 = hashText text) :
    ((evictLru order c.cache).toPairs.filter (fun e => e.1 ≠ hashText text)).Perm
      ((newer ++ [older]).filter (fun e => e.1 ≠ hashText text)) := by
  have hrest : newer.filter (fun e => e.1 ≠ hashText text) =
      (newer ++ [older]).filter (fun e => e.1 ≠ hashText text) := by
    rw [List.filter_append, List.filter_cons_of_neg (by simpa using hself), List.filter_nil,
      List.append_nil]
  exact ((h.evict order).filter _).trans (List.Perm.of_eq hrest)

/-- An insertion that does not displace another text keeps the order. -/
theorem Sorted.insert {order : IterationOrder κ E} (h : Sorted hashText maxEntries tr c es)
    (hmax : 0 < maxEntries) (hapart : Apart hashText tr text)
    (hrec : Recorded tr ev text embedding)
    (huse : Use c c' hashText text embedding
      ((room order c).toPairs.filter (fun e => e.1 ≠ hashText text)))
    (hgood : ∀ entry k other, c.maxEntries ≤ c.cache.entries.length →
      c.cache.lookup (hashText text) = some entry → c.cache.lookup k = some other →
      entry.lastAccess ≤ other.lastAccess) :
    (∃ es', Sorted hashText maxEntries (tr ++ [ev]) c' es') ∧
      (hashText text ∈ c.cache → ∀ k ∈ c.cache, k ∈ c'.cache) := by
  by_cases hfull : c.maxEntries ≤ c.cache.entries.length
  · obtain ⟨newer, older, rfl, -, hmany⟩ := h.full hmax hfull
    rw [room, if_pos hfull] at huse
    cases hfound : c.cache.lookup (hashText text) with
    | none =>
        refine ⟨h.newcomer hmax hmany hfound hrec huse, fun hmem => ?_⟩
        rw [← AList.lookup_isSome, hfound] at hmem
        cases hmem
    | some entry =>
        have hmem := h.mem_iff.mpr hfound
        rcases List.mem_append.mp hmem with hnewer | holder
        · have hlt := h.older_lt hnewer
          have hle := hgood entry older.1 older.2 hfull hfound (h.mem_iff.mp (by simp))
          exact absurd hle (Nat.not_le.mpr hlt)
        · have hself : older.1 = hashText text := by rw [← List.mem_singleton.mp holder]
          have huse' := huse.congr (h.evict_self hself)
          exact ⟨⟨_, h.touch huse' hrec hapart (Or.inl (h.found hapart hfound).1)⟩,
            fun _ => huse'.keeps h.perm⟩
  · rw [room, if_neg hfull] at huse
    have huse' := huse.congr (h.perm_filter _)
    have hlen := h.length_eq_min
    rw [h.length] at hlen
    rw [h.size] at hfull
    exact ⟨⟨_, h.touch huse' hrec hapart (Or.inr (by omega))⟩, fun _ => huse'.keeps h.perm⟩

theorem Sorted.step (h : Sorted hashText maxEntries tr c es) (hmax : 0 < maxEntries)
    (hstep : Step hashText c ev c') (hapart : Apart hashText tr ev.call.text)
    (hgood : ¬ ev.Displaces hashText) :
    (∃ es', Sorted hashText maxEntries (tr ++ [ev]) c' es') ∧ ev.KeepsOthers hashText := by
  obtain ⟨rfl, rfl, heffect⟩ := step_cases hstep
  generalize hcall : ev.call = call at heffect hapart
  generalize hfound : ev.found = found at heffect
  rw [Event.KeepsOthers, hcall]
  cases heffect with
  | @hit text entry hentry huse =>
      have hrec : Recorded tr ev text entry.embedding := by
        refine ⟨by rw [Event.used, hcall, hfound]; rfl, ?_, fun other _ => lastInserted_get hcall _⟩
        rw [lastInserted_get hcall]
        exact (h.found hapart hentry).2
      refine ⟨⟨_, h.touch (huse.congr (h.perm_filter _)) hrec hapart (Or.inl ?_)⟩, trivial⟩
      exact (h.found hapart hentry).1
  | @miss text hcache hsize hcounter =>
      have hused : ev.used = none := by rw [Event.used, hcall, hfound]; rfl
      refine ⟨⟨es, hsize.trans h.size, hcache ▸ h.perm, h.sorted, hcounter ▸ h.bound, ?_⟩, trivial⟩
      rw [byUse_concat_none hused, h.texts]
      apply List.map_congr_left
      intro other _
      rw [lastInserted_get hcall]
  | @insert text embedding order huse =>
      refine h.insert hmax hapart (recorded_insert hcall) huse ?_
      intro entry k other hfull hentry hother
      rw [Event.Displaces, hcall] at hgood
      by_contra hlt
      exact hgood ⟨hfull, entry, hentry, k, other, hother, Nat.not_le.mp hlt⟩

/-- A displacing insertion leaves a place of the cache empty. -/
theorem Sorted.not_isLru (h : Sorted hashText maxEntries tr c es) (hmax : 0 < maxEntries)
    (hstep : Step hashText c ev c') (hbad : ev.Displaces hashText) :
    ¬ IsLru hashText maxEntries (tr ++ [ev]) c' := by
  obtain ⟨rfl, rfl, heffect⟩ := step_cases hstep
  generalize hcall : ev.call = call at heffect
  generalize ev.found = found at heffect
  rw [Event.Displaces, hcall] at hbad
  cases heffect with
  | hit _ _ | miss _ _ _ => exact hbad.elim
  | @insert text embedding order huse =>
      obtain ⟨hfull, entry, hentry, k, other, hother, hlt⟩ := hbad
      obtain ⟨newer, older, rfl, hlen, hmany⟩ := h.full hmax hfull
      rw [room, if_pos hfull] at huse
      -- the text is not the one used longest ago, and the oldest entry goes as well
      have hnewer : (hashText text, entry) ∈ newer := by
        rcases List.mem_append.mp (h.mem_iff.mpr hentry) with hmem | hmem
        · exact hmem
        · rw [← List.mem_singleton.mp hmem] at h
          rcases List.mem_append.mp (h.mem_iff.mpr hother) with hmem' | hmem'
          · exact absurd (h.older_lt hmem') (Nat.lt_asymm hlt)
          · cases List.mem_singleton.mp hmem'
            exact absurd hlt (Nat.lt_irrefl _)
      have hless : (newer.filter (fun e => e.1 ≠ hashText text)).length < newer.length := by
        refine List.length_filter_lt_length_iff_exists.mpr ⟨_, hnewer, by simp⟩
      have hafter := huse.perm.length_eq
      rw [List.length_cons, ((h.evict order).filter _).length_eq] at hafter
      have hgrows := length_byUse_le tr ev
      intro hlru
      have hcount := hlru.length_eq
      rw [List.length_map, List.length_map, List.length_take] at hcount
      omega

/-! ## §5  Runs -/

theorem sorted_of_runs (hmax : 0 < maxEntries)
    (run : Runs (Step hashText) (new κ E maxEntries) tr c) (hapart : HashesApart hashText tr)
    (hgood : ∀ ev ∈ tr, ¬ ev.Displaces hashText) :
    ∃ es, Sorted hashText maxEntries tr c es := by
  induction run with
  | nil => exact ⟨[], sorted_new⟩
  | snoc run hstep ih =>
      obtain ⟨es, hsorted⟩ := ih (hapart.mono (List.subset_append_left _ _))
        fun ev hev => hgood ev (by simp [hev])
      exact (hsorted.step hmax hstep hapart.apart (hgood _ (by simp))).1

/-- **The cache is least-recently-used** all along a run just when no insertion of the run
displaces another text. -/
theorem lruThroughout_iff (hmax : 0 < maxEntries)
    (run : Runs (Step hashText) (new κ E maxEntries) tr c) (hapart : HashesApart hashText tr) :
    LruThroughout hashText maxEntries tr ↔ ∀ ev ∈ tr, ¬ ev.Displaces hashText := by
  constructor
  · intro hlru
    induction run with
    | nil => simp
    | @snoc tr c c' ev run hstep ih =>
        have hbefore := ih (hapart.mono (List.subset_append_left _ _)) (by
            rintro tr₁ ev₁ tr₂ rfl
            exact hlru tr₁ ev₁ (tr₂ ++ [ev]) (by simp))
        intro ev' hev'
        rcases List.mem_append.mp hev' with hold | hnew
        · exact hbefore ev' hold
        · rw [List.mem_singleton.mp hnew]
          intro hbad
          obtain ⟨es, hsorted⟩ := sorted_of_runs hmax run
            (hapart.mono (List.subset_append_left _ _)) hbefore
          have hafter : ev.after = c' := (step_cases hstep).2.1
          refine hsorted.not_isLru hmax hstep hbad ?_
          rw [← hafter]
          exact (hlru tr ev [] rfl).1
  · intro hgood tr₁ ev tr₂ heq
    obtain ⟨c₁, run₁, run₂⟩ := (heq ▸ run).split
    obtain ⟨c₂, hstep, -⟩ := run₂.uncons
    subst heq
    obtain ⟨es, hsorted⟩ := sorted_of_runs hmax run₁
      (hapart.mono (List.subset_append_left _ _)) fun ev hev => hgood ev (by simp [hev])
    have hstepApart : HashesApart hashText (tr₁ ++ [ev]) := by
      refine hapart.mono (List.append_subset.mpr ⟨List.subset_append_left _ _, ?_⟩)
      simp
    obtain ⟨⟨es', hsorted'⟩, hkeeps⟩ :=
      hsorted.step hmax hstep hstepApart.apart (hgood ev (by simp))
    rw [(step_cases hstep).2.1]
    exact ⟨hsorted'.isLru, hkeeps⟩

/-- The call inserts its text. -/
def Event.inserts (ev : Event κ E) : Prop := (ev.inserted ev.call.text).isSome = true

theorem mem_of_mem_room {order : IterationOrder κ E} {e : κ × CacheEntry E}
    (h : e ∈ (room order c).toPairs) : e ∈ c.cache.toPairs := by
  rw [room] at h
  split at h
  · rw [evictLru] at h
    split at h
    · rw [HashMap.toPairs_erase] at h
      exact List.mem_of_mem_filter h
    · exact h
  · exact h

/-- What is in the cache, and what is used, was inserted. -/
theorem inserted_of_runs (run : Runs (Step hashText) (new κ E maxEntries) tr c)
    (hapart : HashesApart hashText tr) :
    (∀ k ∈ c.cache, ∃ ev ∈ tr, hashText ev.call.text = k ∧ ev.inserts) ∧
      ∀ text ∈ byUse tr, ∃ ev ∈ tr, ev.call.text = text ∧ ev.inserts := by
  induction run with
  | nil =>
      refine ⟨fun k hk => ?_, fun text htext => nomatch htext⟩
      exact absurd hk (AList.notMem_empty k)
  | @snoc tr c c' ev run hstep ih =>
      obtain ⟨hkeys, htexts⟩ := ih (hapart.mono (List.subset_append_left _ _))
      have hold : ∀ k ∈ c.cache, ∃ ev' ∈ tr ++ [ev], hashText ev'.call.text = k ∧ ev'.inserts := by
        intro k hk
        obtain ⟨ev', hev', hrest⟩ := hkeys k hk
        exact ⟨ev', by simp [hev'], hrest⟩
      have hbefore : ∀ text ∈ byUse tr, ∃ ev' ∈ tr ++ [ev], ev'.call.text = text ∧ ev'.inserts := by
        intro text htext
        obtain ⟨ev', hev', hrest⟩ := htexts text htext
        exact ⟨ev', by simp [hev'], hrest⟩
      obtain ⟨-, -, heffect⟩ := step_cases hstep
      generalize hcall : ev.call = call at heffect
      generalize hfound : ev.found = found at heffect
      cases heffect with
      | @hit text entry hentry huse =>
          have hhit : hashText text ∈ c.cache := by
            rw [← AList.lookup_isSome, hentry]
            rfl
          constructor
          · intro k hk
            rcases huse.mem (fun e he => List.mem_of_mem_filter he) hk with rfl | hk
            · exact hold _ hhit
            · exact hold k hk
          · intro other hother
            rw [byUse_concat (by rw [Event.used, hcall, hfound]; rfl)] at hother
            rcases List.mem_cons.mp hother with rfl | hother
            · obtain ⟨ev', hev', hhash, hins⟩ := hkeys _ hhit
              have htext : ev.call.text = other := by rw [hcall]; rfl
              refine ⟨ev', by simp [hev'], ?_, hins⟩
              rw [← htext] at hhash ⊢
              exact hapart ev' (by simp [hev']) ev (by simp) hhash
            · exact hbefore other (List.mem_of_mem_filter hother)
      | miss hcache _ _ =>
          rw [byUse_concat_none (by rw [Event.used, hcall, hfound]; rfl), hcache]
          exact ⟨hold, hbefore⟩
      | @insert text embedding order huse =>
          have hnew : ev.call.text = text ∧ ev.inserts := by
            have htext : ev.call.text = text := by rw [hcall]; rfl
            refine ⟨htext, ?_⟩
            rw [Event.inserts, htext, Event.inserted, hcall]
            simp
          constructor
          · intro k hk
            rcases huse.mem (fun e he => mem_of_mem_room (List.mem_of_mem_filter he)) hk with
              rfl | hk
            · exact ⟨ev, by simp, by rw [hnew.1], hnew.2⟩
            · exact hold k hk
          · intro other hother
            rw [byUse_concat (by rw [Event.used, hcall])] at hother
            rcases List.mem_cons.mp hother with rfl | hother
            · exact ⟨ev, by simp, hnew⟩
            · exact hbefore other (List.mem_of_mem_filter hother)

/-- The texts in the order of use are the texts inserted. -/
theorem mem_byUse_iff (run : Runs (Step hashText) (new κ E maxEntries) tr c)
    (hapart : HashesApart hashText tr) :
    text ∈ byUse tr ↔ ∃ ev ∈ tr, ev.call.text = text ∧ ev.inserts := by
  constructor
  · exact (inserted_of_runs run hapart).2 text
  · rintro ⟨ev, hev, rfl, hins⟩
    refine mem_recency.mpr (List.mem_filterMap.mpr ⟨ev, hev, ?_⟩)
    rw [Event.inserts, Event.inserted] at hins
    rw [Event.used]
    cases hcall : ev.call with
    | get text =>
        rw [hcall] at hins
        cases hins
    | insert text embedding order => rfl

end Model

/-! ## §6  Two runs -/

/-- A text is inserted again into a full cache: the other one is lost. -/
theorem reinsertion_displaces :
    ∃ tr c, Runs (Step (id : String → String)) (new String ℕ 2) tr c ∧ HashesApart id tr ∧
      byUse tr = ["b", "a"] ∧ c.cache.toPairs = [("b", ⟨2, 3⟩)] ∧ ¬ LruThroughout id 2 tr := by
  have run : Runs (Step (id : String → String)) (new String ℕ 2) _ _ :=
    runs_of_exec_isSome [.insert "a" 0 (.asStored _ _), .insert "b" 1 (.asStored _ _),
      .insert "b" 2 (.asStored _ _)] (by decide)
  refine ⟨_, _, run, fun _ _ _ _ h => h, by decide, by decide, fun h => ?_⟩
  have hlast := (h _ _ [] (List.dropLast_append_getLast (by decide)).symm).1.length_eq
  exact absurd hlast (by decide)

/-- Nothing that is in the cache is inserted again. -/
def Event.fresh {κ E : Type} [DecidableEq κ] (hashText : String → κ) (ev : Event κ E) : Bool :=
  match ev.call with
  | .get _ => true
  | .insert text _ _ => (ev.before.cache.lookup (hashText text)).isNone

theorem not_displaces_of_fresh {κ E : Type} [DecidableEq κ] {hashText : String → κ}
    {ev : Event κ E} (h : ev.fresh hashText = true) : ¬ ev.Displaces hashText := by
  rw [Event.fresh] at h
  rw [Event.Displaces]
  split
  · exact id
  · rename_i hcall
    rw [hcall] at h
    rintro ⟨-, entry, hentry, -⟩
    simp only [hentry] at h
    cases h

/-- The text found is kept, and the other one is evicted for the third. -/
theorem lruThroughout_iff_three_texts :
    ∃ tr c, Runs (Step (id : String → String)) (new String ℕ 2) tr c ∧
      byUse tr = ["c", "a", "b"] ∧ c.cache.toPairs = [("c", ⟨2, 4⟩), ("a", ⟨0, 3⟩)] ∧
      LruThroughout id 2 tr := by
  have run : Runs (Step (id : String → String)) (new String ℕ 2) _ _ :=
    runs_of_exec_isSome [.insert "a" 0 (.asStored _ _), .insert "b" 1 (.asStored _ _), .get "a",
      .insert "c" 2 (.asStored _ _)] (by decide)
  refine ⟨_, _, run, by decide, by decide, ?_⟩
  refine (lruThroughout_iff (by decide) run fun _ _ _ _ h => h).mpr ?_
  exact fun ev hev => not_displaces_of_fresh (List.all_eq_true.mp (by decide) ev hev)

end EmbeddingCache

end Oclaw.MemoryCore
