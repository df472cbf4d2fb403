import Mathlib.Data.List.Dedup
import Oclaw.Lib.Books
import Oclaw.SecurityCore.Session

/-!
# The two maps of the session manager

Sessions by token and tokens by user are changed one after the other, under separate
guards. What holds in between is said of the next actions of the calls: a session that
is not listed is being created or is about to be removed with all sessions of its user,
and a listed token without a session is about to be struck off. When no call is in
progress the two maps say the same.

The two maps and the calls between them are the books of the library, and every action
of a call is one of its steps, or none.
-/

namespace Oclaw.SecurityCore.Session

open Oclaw.Lib

/-! ## §1  The books of the manager -/

variable {timeoutSecs : ℕ} {f : ℕ → Option Act} {d d' : Data} {t t' : ℕ} {a a' : Act}
variable {o : Option Act} {token userId : String} {R : Act → Prop}

/-- The tokens listed under a user. -/
def Data.listed (d : Data) (userId : String) : List String := (d.userSessions.lookup userId).getD []

/-- The user of the session with this token. -/
def Data.owner (d : Data) (token : String) : Option String :=
  (d.sessions.lookup token).map (·.userId)

def Act.Draws (token : String) : Act → Prop
  | .createClock _ token' => token' = token
  | .createInsert s => s.token = token
  | _ => False

def Act.Pushes (userId token : String) : Act → Prop
  | .createPush userId' token' => userId = userId' ∧ token = token'
  | _ => False

def Act.Strikes (userId token : String) : Act → Prop
  | .revokeRetain token' userId' _ => userId = userId' ∧ token = token'
  | _ => False

def Act.Clears (userId token : String) : Act → Prop
  | .revokeAllRemove userId' tokens => userId = userId' ∧ token ∈ tokens
  | _ => False

/-- Some call has such an action next. -/
def Doing (f : ℕ → Option Act) (R : Act → Prop) : Prop := ∃ t a, f t = some a ∧ R a

/-- Some other call has such an action next. -/
def Others (f : ℕ → Option Act) (t : ℕ) (R : Act → Prop) : Prop :=
  ∃ t' a, t' ≠ t ∧ f t' = some a ∧ R a

theorem doing_iff (hf : f t = some a) : Doing f R ↔ R a ∨ Others f t R := by
  constructor
  · rintro ⟨t', b, hb, hR⟩
    by_cases heq : t' = t
    · subst heq
      rw [hf] at hb
      cases hb
      exact Or.inl hR
    · exact Or.inr ⟨t', b, heq, hb, hR⟩
  · rintro (hR | ⟨t', b, -, hb, hR⟩)
    · exact ⟨t, a, hf, hR⟩
    · exact ⟨t', b, hb, hR⟩

theorem others_update : Others (Function.update f t o) t R ↔ Others f t R := by
  constructor
  · rintro ⟨t', a, hne, hf, hR⟩
    rw [Function.update_of_ne hne] at hf
    exact ⟨t', a, hne, hf, hR⟩
  · rintro ⟨t', a, hne, hf, hR⟩
    exact ⟨t', a, hne, by rwa [Function.update_of_ne hne], hR⟩

theorem doing_update_some :
    Doing (Function.update f t (some a)) R ↔ R a ∨ Others f t R := by
  rw [doing_iff (Function.update_self ..), others_update]

theorem doing_update_idle (ho : ∀ a, o = some a → ¬ R a) :
    Doing (Function.update f t o) R ↔ Others f t R := by
  cases o with
  | some a => rw [doing_update_some, or_iff_right (ho a rfl)]
  | none =>
      rw [← others_update (o := none)]
      constructor
      · rintro ⟨t', a, hf, hR⟩
        refine ⟨t', a, ?_, hf, hR⟩
        rintro rfl
        rw [Function.update_self] at hf
        cases hf
      · rintro ⟨t', a, -, hf, hR⟩
        exact ⟨t', a, hf, hR⟩

theorem doing_update_none : Doing (Function.update f t none) R ↔ Others f t R :=
  doing_update_idle (by rintro _ ⟨⟩)

/-- A call that was not at such an action and is at none now changes nothing. -/
theorem doing_idle (hf : ∀ a, f t = some a → ¬ R a) (ho : ∀ a, o = some a → ¬ R a) :
    Doing (Function.update f t o) R ↔ Doing f R := by
  rw [doing_update_idle ho, ← doing_update_idle hf, Function.update_eq_self]

def books (f : ℕ → Option Act) (d : Data) : Books String String where
  owner := d.owner
  listed userId token := token ∈ d.listed userId
  drawing token := Doing f (Act.Draws token)
  pushing userId token := Doing f (Act.Pushes userId token)
  striking userId token := Doing f (Act.Strikes userId token)
  clearing userId token := Doing f (Act.Clears userId token)

/-- An action that is no part of a change of both maps. -/
def Act.Idle (a : Act) : Prop :=
  ∀ userId token, ¬ a.Draws token ∧ ¬ a.Pushes userId token ∧ ¬ a.Strikes userId token ∧
    ¬ a.Clears userId token

/-- The token that a call of `create_session` carries. -/
def Act.creates : Act → Option String
  | .createClock _ token => some token
  | .createInsert s => some s.token
  | .createPush _ token => some token
  | _ => none

structure Inv (f : ℕ → Option Act) (d : Data) : Prop where
  balanced : (books f d).Balanced
  known : ∀ {token}, (books f d).Mentions token → token ∈ d.tokens
  apart : ∀ {t t' a a' token}, f t = some a → f t' = some a' → a.creates = some token →
    a'.creates = some token → t' = t
  nodup : ∀ userId, (d.listed userId).Nodup

/-- Actions before and after which nothing of the call is under way. -/
theorem books_idle (hf : ∀ a, f t = some a → a.Idle) (ho : ∀ a, o = some a → a.Idle)
    (howner : d'.owner = d.owner) (hlisted : d'.listed = d.listed) :
    books (Function.update f t o) d' = books f d := by
  ext
  case owner => simp [books, howner]
  case listed => simp [books, hlisted]
  case drawing y =>
    exact doing_idle (fun a ha => (hf a ha "" y).1) (fun a ha => (ho a ha "" y).1)
  case pushing u y =>
    exact doing_idle (fun a ha => (hf a ha u y).2.1) (fun a ha => (ho a ha u y).2.1)
  case striking u y =>
    exact doing_idle (fun a ha => (hf a ha u y).2.2.1) (fun a ha => (ho a ha u y).2.2.1)
  case clearing u y =>
    exact doing_idle (fun a ha => (hf a ha u y).2.2.2) (fun a ha => (ho a ha u y).2.2.2)

theorem books_insert {s : SecuritySession} (hf : f t = some (.createInsert s)) :
    books (Function.update f t (some (.createPush s.userId s.token)))
        { d with sessions := d.sessions.insert s.token s } =
      (books f d).enter s.userId s.token (fun y => Others f t (Act.Draws y)) := by
  ext
  case owner =>
    simp only [books, Books.enter, Data.owner, HashMap.lookup_insert_eq]
    split <;> rfl
  all_goals simp [books, Books.enter, doing_iff hf, doing_update_some, Act.Draws, Act.Pushes,
      Act.Strikes, Act.Clears, Data.listed]

theorem books_push (hf : f t = some (.createPush userId token)) :
    books (Function.update f t none)
        { d with userSessions := d.userSessions.insert userId (d.listed userId ++ [token]) } =
      (books f d).push userId token (fun u y => Others f t (Act.Pushes u y)) := by
  ext
  case listed u y =>
    simp only [books, Books.push, Data.listed, HashMap.lookup_insert_eq]
    split
    · rename_i heq
      subst heq
      simp
    · simp [*]
  all_goals simp [books, Books.push, doing_iff hf, doing_update_none, Act.Draws, Act.Pushes,
      Act.Strikes, Act.Clears, Data.owner]

theorem books_remove {s : SecuritySession} {k : After} (hf : f t = some (.revokeRemove token k)) :
    books (Function.update f t (some (.revokeRetain token s.userId k)))
        { d with sessions := d.sessions.erase token } =
      (books f d).remove s.userId token := by
  ext
  case owner =>
    simp only [books, Books.remove, Data.owner, HashMap.lookup_erase_eq]
    split <;> rfl
  all_goals simp [books, Books.remove, doing_iff hf, doing_update_some, Act.Draws, Act.Pushes,
      Act.Strikes, Act.Clears, Data.listed]

/-- The caller of `revoke_session` goes on with another revocation or is done. -/
theorem idle_resume {k : After} {r : Except AuthError Unit} (h : (k.resume r).focus = some a) :
    a.Idle := by
  revert h
  fun_cases After.resume r k
  all_goals rintro ⟨⟩
  exact fun _ _ => ⟨id, id, id, id⟩

theorem books_strike {k : After} (hf : f t = some (.revokeRetain token userId k))
    (ho : ∀ a, o = some a → a.Idle)
    (hlisted : ∀ u y, y ∈ d'.listed u ↔ y ∈ d.listed u ∧ ¬ (u = userId ∧ y = token))
    (howner : d'.owner = d.owner) :
    books (Function.update f t o) d' =
      (books f d).strike userId token (fun u y => Others f t (Act.Strikes u y)) := by
  ext
  case owner => simp [books, Books.strike, howner]
  case listed u y => simp [books, Books.strike, hlisted]
  case drawing y =>
    exact doing_idle (by simp [hf, Act.Draws]) (fun a ha => (ho a ha "" y).1)
  case pushing u y =>
    exact doing_idle (by simp [hf, Act.Pushes]) (fun a ha => (ho a ha u y).2.1)
  case striking u y => exact doing_update_idle (fun a ha => (ho a ha u y).2.2.1)
  case clearing u y =>
    exact doing_idle (by simp [hf, Act.Clears]) (fun a ha => (ho a ha u y).2.2.2)

theorem books_take (hf : f t = some (.revokeAllTake userId)) :
    books (Function.update f t (some (.revokeAllRemove userId (d.listed userId))))
        { d with userSessions := d.userSessions.erase userId } =
      (books f d).take userId := by
  ext
  case listed u y =>
    simp only [books, Books.take, Data.listed, HashMap.lookup_erase_eq]
    split
    · simp [*]
    · simp [*]
  case clearing u y =>
    simp only [books, Books.take, doing_iff hf, doing_update_some, Act.Clears, false_or]
  all_goals simp [books, Books.take, doing_iff hf, doing_update_some, Act.Draws, Act.Pushes,
      Act.Strikes, Data.owner]

theorem books_clear {tokens : List String} (hf : f t = some (.revokeAllRemove userId tokens)) :
    books (Function.update f t none) { d with sessions := HashMap.eraseAll d.sessions tokens } =
      (books f d).clear (· ∈ tokens) (fun u y => Others f t (Act.Clears u y)) := by
  ext
  case owner =>
    simp only [books, Books.clear, Data.owner, HashMap.lookup_eraseAll]
    split <;> rfl
  all_goals simp [books, Books.clear, doing_iff hf, doing_update_none, Act.Draws, Act.Pushes,
      Act.Strikes, Act.Clears, Data.listed]

/-! ## §2  Invariant -/

/-- A guard for writing the sessions keeps `create_session` out. -/
theorem not_pushing_of_alone (halone : Alone (sessionManager timeoutSecs) f t a)
    (hheld : held a .sessions = some .write) {u y : String} : ¬ Others f t (Act.Pushes u y) := by
  rintro ⟨t', b, hne, hf, hpush⟩
  have hpins := (halone (l := .sessions) hf hne).1 hheld
  cases b <;> first | exact hpush | cases hpins

theorem creates_of_draws (h : a.Draws token) : a.creates = some token := by
  cases a
  case createClock user token' => exact congrArg some h
  case createInsert s => exact congrArg some h
  all_goals exact h.elim

theorem creates_of_pushes (h : a.Pushes userId token) : a.creates = some token := by
  cases a
  case createPush userId' token' => exact congrArg some h.2.symm
  all_goals exact h.elim

theorem creates_resume (k : After) (r : Except AuthError Unit) :
    (k.resume r).focus.bind Act.creates = none := by
  fun_cases After.resume r k
  all_goals rfl

theorem creates_exec (h : (exec a d).2.focus.bind Act.creates = some token) :
    a.creates = some token := by
  revert h
  fun_cases exec a d
  all_goals first
    | exact id
    | rintro ⟨⟩
    | (intro hnext; cases (creates_resume _ _).symm.trans hnext)

theorem Inv.apart_exec (h : Inv f d) (hf : f t = some a) {t₁ t₂ : ℕ} {a₁ a₂ : Act}
    (hf₁ : Function.update f t (exec a d).2.focus t₁ = some a₁)
    (hf₂ : Function.update f t (exec a d).2.focus t₂ = some a₂)
    (h₁ : a₁.creates = some token) (h₂ : a₂.creates = some token) : t₂ = t₁ := by
  have hcarry (hnext : (exec a d).2.focus.bind Act.creates = some token) :
      (f t).bind Act.creates = some token := by
    rw [hf]
    exact creates_exec hnext
  obtain ⟨b₁, hb₁, hc₁⟩ := carried_of_update hcarry hf₁ h₁
  obtain ⟨b₂, hb₂, hc₂⟩ := carried_of_update hcarry hf₂ h₂
  exact h.apart hb₁ hb₂ hc₁ hc₂

theorem tokens_exec : (exec a d).1.tokens = d.tokens := by
  fun_cases exec a d
  all_goals rfl

/-- A step of the books that mentions nothing new and lists nothing twice. -/
theorem Inv.step (h : Inv f d) (hf : f t = some a)
    (hbalanced : (books (Function.update f t (exec a d).2.focus) (exec a d).1).Balanced)
    (hmentions : ∀ {y}, (books (Function.update f t (exec a d).2.focus) (exec a d).1).Mentions y →
      (books f d).Mentions y)
    (hnodup : ∀ u, ((exec a d).1.listed u).Nodup) :
    Inv (Function.update f t (exec a d).2.focus) (exec a d).1 where
  balanced := hbalanced
  known hm := by
    rw [tokens_exec]
    exact h.known (hmentions hm)
  apart := h.apart_exec hf
  nodup := hnodup

theorem others_doing (h : Others f t R) : Doing f R := by
  obtain ⟨t', a, -, hf, hR⟩ := h
  exact ⟨t', a, hf, hR⟩

/-- An action that leaves the books alone. -/
theorem Inv.idle (h : Inv f d) (hf : f t = some a) (ha : a.Idle)
    (ho : ∀ a', (exec a d).2.focus = some a' → a'.Idle)
    (howner : (exec a d).1.owner = d.owner) (hlisted : (exec a d).1.listed = d.listed) :
    Inv (Function.update f t (exec a d).2.focus) (exec a d).1 := by
  have hidle (b : Act) (hb : f t = some b) : b.Idle := by
    rw [hf] at hb
    cases hb
    exact ha
  have hbooks := books_idle hidle ho howner hlisted
  refine h.step hf (hbooks ▸ h.balanced) (fun hm => hbooks ▸ hm) ?_
  rw [hlisted]
  exact h.nodup

theorem Inv.clock {user : AuthUser} (h : Inv f d) (hf : f t = some (.createClock user token)) :
    Inv (Function.update f t (exec (.createClock user token) d).2.focus) d := by
  have hbooks : books (Function.update f t (exec (.createClock user token) d).2.focus) d =
      books f d := by
    ext
    all_goals simp [books, exec, Prog.focus, doing_iff hf, doing_update_some, Act.Draws,
      Act.Pushes, Act.Strikes, Act.Clears]
  exact h.step hf (hbooks ▸ h.balanced) (fun hm => hbooks ▸ hm) h.nodup

theorem Inv.insert {s : SecuritySession} (h : Inv f d) (hf : f t = some (.createInsert s)) :
    Inv (Function.update f t (exec (.createInsert s) d).2.focus) (exec (.createInsert s) d).1 := by
  have hdraw : (books f d).drawing s.token := ⟨t, _, hf, rfl⟩
  have hbooks := books_insert (d := d) hf
  refine h.step hf ?_ ?_ h.nodup
  · refine hbooks ▸ h.balanced.enter hdraw fun y hy => ⟨others_doing hy, ?_⟩
    -- no other call carries the token
    rintro rfl
    obtain ⟨t', a', hne, hf', hR⟩ := hy
    exact hne (h.apart hf hf' rfl (creates_of_draws hR))
  · intro y hm
    exact Books.mentions_of_enter hdraw (fun y => others_doing) (hbooks ▸ hm)

theorem Inv.push (h : Inv f d) (hf : f t = some (.createPush userId token)) :
    Inv (Function.update f t (exec (.createPush userId token) d).2.focus)
      (exec (.createPush userId token) d).1 := by
  have hpush : (books f d).pushing userId token := ⟨t, _, hf, rfl, rfl⟩
  have hother (u y : String) : (books f d).pushing u y ↔
      (u = userId ∧ y = token) ∨ Others f t (Act.Pushes u y) := doing_iff hf
  have hbooks := books_push (d := d) hf
  refine h.step hf ?_ ?_ ?_
  · refine hbooks ▸ h.balanced.push hpush hother ?_
    rintro u ⟨t', a', hne, hf', hR⟩
    exact hne (h.apart hf hf' rfl (creates_of_pushes hR))
  · intro y hm
    exact Books.mentions_of_push hother (hbooks ▸ hm)
  · intro u
    have hnew : token ∉ d.listed userId := ((h.balanced.born hpush).2 userId).1
    have hlist : (exec (.createPush userId token) d).1.listed u =
        if u = userId then d.listed userId ++ [token] else d.listed u := by
      simp only [exec, Data.listed, HashMap.lookup_insert_eq]
      split <;> rfl
    rw [hlist]
    split
    · exact List.Nodup.append (h.nodup userId) (List.nodup_singleton _) (by simpa using hnew)
    · exact h.nodup u

theorem Inv.remove {k : After} (h : Inv f d) (halone : Alone (sessionManager timeoutSecs) f t
    (.revokeRemove token k)) (hf : f t = some (.revokeRemove token k)) :
    Inv (Function.update f t (exec (.revokeRemove token k) d).2.focus)
      (exec (.revokeRemove token k) d).1 := by
  cases hlookup : d.sessions.lookup token with
  | none =>
      have hexec : exec (.revokeRemove token k) d =
          (d, .unlock .sessions .write (k.resume (.error .tokenInvalid))) := by
        simp only [exec, hlookup]
      refine h.idle hf (fun _ _ => ⟨id, id, id, id⟩) ?_ ?_ ?_
      · rw [hexec]
        exact fun a' ha' => idle_resume ha'
      · rw [hexec]
      · rw [hexec]
  | some s =>
      have hexec : exec (.revokeRemove token k) d =
          ({ d with sessions := d.sessions.erase token },
            .unlock .sessions .write (.lock .userSessions .write
              (.act (.revokeRetain token s.userId k)))) := by
        simp only [exec, hlookup]
      have howner : (books f d).owner token = some s.userId := by
        simp [books, Data.owner, hlookup]
      have hpush (u y : String) : ¬ (books f d).pushing u y := fun hp =>
        not_pushing_of_alone halone rfl (((doing_iff hf).mp hp).resolve_left id)
      have hbooks := books_remove (d := d) (s := s) hf
      refine h.step hf ?_ ?_ ?_
      · rw [hexec]
        exact hbooks ▸ h.balanced.remove howner fun u => hpush u token
      · intro y hm
        rw [hexec] at hm
        exact Books.mentions_of_remove howner (hbooks ▸ hm)
      · rw [hexec]
        exact h.nodup

theorem Inv.strike {k : After} (h : Inv f d) (hf : f t = some (.revokeRetain token userId k)) :
    Inv (Function.update f t (exec (.revokeRetain token userId k) d).2.focus)
      (exec (.revokeRetain token userId k) d).1 := by
  have hstrike : (books f d).striking userId token := ⟨t, _, hf, rfl, rfl⟩
  have hother (u y : String) : (books f d).striking u y ↔
      (u = userId ∧ y = token) ∨ Others f t (Act.Strikes u y) := doing_iff hf
  have hfocus (a' : Act)
      (ha' : (exec (.revokeRetain token userId k) d).2.focus = some a') : a'.Idle := by
    simp only [exec] at ha'
    split at ha' <;> exact idle_resume ha'
  have howner : (exec (.revokeRetain token userId k) d).1.owner = d.owner := by
    simp only [exec]
    split <;> rfl
  have hlist (u : String) : (exec (.revokeRetain token userId k) d).1.listed u =
      if u = userId then (d.listed u).filter (· ≠ token) else d.listed u := by
    simp only [exec]
    split
    · rename_i hnone
      split
      · rename_i heq
        subst heq
        simp [Data.listed, hnone]
      · rfl
    · rename_i tokens hsome
      simp only [Data.listed, HashMap.lookup_insert_eq]
      split
      · rename_i heq
        subst heq
        simp [hsome]
      · rfl
  have hmem (u y : String) : y ∈ (exec (.revokeRetain token userId k) d).1.listed u ↔
      y ∈ d.listed u ∧ ¬ (u = userId ∧ y = token) := by
    rw [hlist]
    split
    · simp [*]
    · simp [*]
  have hbooks := books_strike hf hfocus hmem howner
  refine h.step hf ?_ ?_ ?_
  · exact hbooks ▸ h.balanced.strike hstrike hother
  · intro y hm
    exact Books.mentions_of_strike (fun u y => others_doing) (hbooks ▸ hm)
  · intro u
    rw [hlist]
    split
    · exact (h.nodup u).filter _
    · exact h.nodup u

theorem Inv.take (h : Inv f d) (hf : f t = some (.revokeAllTake userId)) :
    Inv (Function.update f t (exec (.revokeAllTake userId) d).2.focus)
      (exec (.revokeAllTake userId) d).1 := by
  have hbooks := books_take (d := d) hf
  refine h.step hf (hbooks ▸ h.balanced.take) ?_ ?_
  · intro y hm
    exact Books.mentions_of_take (hbooks ▸ hm)
  · intro u
    simp only [exec, Data.listed, HashMap.lookup_erase_eq]
    split
    · exact List.nodup_nil
    · exact h.nodup u

theorem Inv.clear {tokens : List String} (h : Inv f d)
    (halone : Alone (sessionManager timeoutSecs) f t (.revokeAllRemove userId tokens))
    (hf : f t = some (.revokeAllRemove userId tokens)) :
    Inv (Function.update f t (exec (.revokeAllRemove userId tokens) d).2.focus)
      (exec (.revokeAllRemove userId tokens) d).1 := by
  have hpush (u y : String) : ¬ (books f d).pushing u y := fun hp =>
    not_pushing_of_alone halone rfl (((doing_iff hf).mp hp).resolve_left id)
  have hother (u y : String) : (books f d).clearing u y ↔
      (u = userId ∧ y ∈ tokens) ∨ Others f t (Act.Clears u y) := doing_iff hf
  have hbooks := books_clear (d := d) hf
  refine h.step hf (hbooks ▸ h.balanced.clear hpush hother) ?_ h.nodup
  intro y hm
  exact Books.mentions_of_clear (fun u y => others_doing) (hbooks ▸ hm)

/-- A session with the same user takes the place of a session. -/
theorem owner_insert {s s' : SecuritySession} (hlookup : d.sessions.lookup token = some s)
    (huser : s'.userId = s.userId) :
    Data.owner { d with sessions := d.sessions.insert token s' } = d.owner := by
  funext y
  simp only [Data.owner, HashMap.lookup_insert_eq]
  split
  · rename_i heq
    rw [heq, hlookup, Option.map_some, Option.map_some, huser]
  · rfl

theorem Inv.exec (h : Inv f d) (halone : Alone (sessionManager timeoutSecs) f t a)
    (hf : f t = some a) : Inv (Function.update f t (exec a d).2.focus) (exec a d).1 := by
  cases a
  case createClock user token => exact h.clock hf
  case createInsert s => exact h.insert hf
  case createPush userId token => exact h.push hf
  case revokeRemove token k => exact h.remove halone hf
  case revokeRetain token userId k => exact h.strike hf
  case revokeAllTake userId => exact h.take hf
  case revokeAllRemove userId tokens => exact h.clear halone hf
  case refreshUpdate token =>
    refine h.idle hf (fun _ _ => ⟨id, id, id, id⟩) ?_ ?_ ?_
    · intro a' ha'
      simp only [Session.exec] at ha'
      split at ha'
      · cases ha'
      · split at ha' <;> cases ha'
    · simp only [Session.exec]
      split
      · rfl
      · rename_i s hlookup
        split
        · rfl
        · exact owner_insert hlookup rfl
    · simp only [Session.exec]
      split
      · rfl
      · split <;> rfl
  case validateRead token =>
    refine h.idle hf (fun _ _ => ⟨id, id, id, id⟩) ?_ ?_ ?_
    · intro a' ha'
      simp only [Session.exec] at ha'
      split at ha'
      · cases ha'
      · split at ha'
        · cases ha'
          exact fun _ _ => ⟨id, id, id, id⟩
        · cases ha'
    · simp only [Session.exec]
      split
      · rfl
      · split <;> rfl
    · simp only [Session.exec]
      split
      · rfl
      · split <;> rfl
  case cleanupCollect order now =>
    exact h.idle hf (fun _ _ => ⟨id, id, id, id⟩) (fun a' ha' => idle_resume ha') rfl rfl
  all_goals
    refine h.idle hf (fun _ _ => ⟨id, id, id, id⟩) ?_ rfl rfl
    rintro a' ⟨⟩
  exact fun _ _ => ⟨id, id, id, id⟩

theorem others_iff (hnone : f t = none) : Others f t R ↔ Doing f R := by
  rw [← doing_update_none, ← hnone, Function.update_eq_self]

theorem books_draw {user : AuthUser} (hnone : f t = none) (howner : d'.owner = d.owner)
    (hlisted : d'.listed = d.listed) :
    books (Function.update f t (some (.createClock user token))) d' = (books f d).draw token := by
  ext
  all_goals simp [books, Books.draw, doing_update_some, others_iff hnone, Act.Draws, Act.Pushes,
    Act.Strikes, Act.Clears, howner, hlisted, eq_comm]

/-- A call that starts changes neither map, and only `create_session` has a token. -/
theorem enter_eq {c : Call} {p : Code} (h : enter c d = some (d', p)) :
    d'.owner = d.owner ∧ d'.listed = d.listed ∧
      ((∃ user token, p.focus = some (.createClock user token) ∧ token ∉ d.tokens ∧
          d'.tokens = token :: d.tokens) ∨
        ((∀ a, p.focus = some a → a.Idle) ∧ d'.tokens = d.tokens)) := by
  revert h
  fun_cases enter c d
  all_goals rintro ⟨⟩
  case case2 user token hnew => exact ⟨rfl, rfl, Or.inl ⟨user, token, rfl, hnew, rfl⟩⟩
  all_goals
    refine ⟨rfl, rfl, Or.inr ⟨?_, rfl⟩⟩
    rintro a ⟨⟩
    exact fun _ _ => ⟨id, id, id, id⟩

theorem mentions_of_creates (hf : f t = some a) (h : a.creates = some token) :
    (books f d).Mentions token := by
  cases a
  case createClock user token' => exact Or.inr (Or.inl ⟨t, _, hf, Option.some.inj h⟩)
  case createInsert s => exact Or.inr (Or.inl ⟨t, _, hf, Option.some.inj h⟩)
  case createPush userId token' =>
    exact Or.inr (Or.inr ⟨userId, Or.inr (Or.inl ⟨t, _, hf, rfl, (Option.some.inj h).symm⟩)⟩)
  all_goals cases h

theorem Act.Idle.creates (h : a.Idle) : a.creates = none := by
  cases a
  case createClock user token => exact absurd rfl (h "" token).1
  case createInsert s => exact absurd rfl (h "" s.token).1
  case createPush userId token => exact absurd ⟨rfl, rfl⟩ (h userId token).2.1
  all_goals rfl

theorem Inv.enter {c : Call} {p : Code} (h : Inv f d) (hnone : f t = none)
    (henter : enter c d = some (d', p)) : Inv (Function.update f t p.focus) d' := by
  obtain ⟨howner, hlisted, ⟨user, token, hfocus, hnew, htokens⟩ | ⟨hidle, htokens⟩⟩ :=
    enter_eq henter
  · have hbooks : books (Function.update f t (some (.createClock user token))) d' =
        (books f d).draw token := books_draw hnone howner hlisted
    rw [hfocus]
    have hfresh {t' : ℕ} {a' : Act} (hf : f t' = some a') : a'.creates ≠ some token :=
      fun hc => hnew (h.known (mentions_of_creates hf hc))
    refine ⟨hbooks ▸ h.balanced.draw (fun hm => hnew (h.known hm)), ?_, ?_, hlisted ▸ h.nodup⟩
    · intro y hm
      rw [hbooks] at hm
      rw [htokens, List.mem_cons]
      rcases hm with hm | (rfl | hm) | hm
      · exact Or.inr (h.known (Or.inl hm))
      · exact Or.inl rfl
      · exact Or.inr (h.known (Or.inr (Or.inl hm)))
      · exact Or.inr (h.known (Or.inr (Or.inr hm)))
    · intro t₁ t₂ a₁ a₂ y hf₁ hf₂ hc₁ hc₂
      refine apart_of_update h.apart ?_ hf₁ hf₂ hc₁ hc₂
      rintro t' a' - hf hc ⟨⟩
      exact hfresh hf hc
  · have hbooks := books_idle (f := f) (t := t) (by simp [hnone]) hidle howner hlisted
    refine ⟨hbooks ▸ h.balanced, fun hm => htokens ▸ h.known (hbooks ▸ hm), ?_, hlisted ▸ h.nodup⟩
    intro t₁ t₂ a₁ a₂ y hf₁ hf₂ hc₁ hc₂
    have hold {t' : ℕ} {a' : Act} (hf : Function.update f t p.focus t' = some a')
        (hc : a'.creates = some y) : f t' = some a' := by
      rcases update_eq_some hf with ⟨-, heq⟩ | ⟨-, hf⟩
      · rw [(hidle _ heq).creates] at hc
        cases hc
      · exact hf
    exact h.apart (hold hf₁ hc₁) (hold hf₂ hc₂) hc₁ hc₂

theorem inv_start :
    Inv (sessionManager timeoutSecs).start.focusAt (sessionManager timeoutSecs).start.data := by
  have hdoing (R : Act → Prop) : ¬ Doing (sessionManager timeoutSecs).start.focusAt R := by
    rintro ⟨_, _, ⟨⟩, _⟩
  refine ⟨⟨?_, ?_, ?_, ?_, ?_, ?_, ?_⟩, ?_, ?_, fun _ => List.nodup_nil⟩
  · exact fun h => absurd h (hdoing _)
  · exact fun h => absurd h (hdoing _)
  · exact fun h => absurd h (hdoing _)
  · exact fun h => absurd h (hdoing _)
  · rintro u x ⟨⟩
  · rintro u x ⟨⟩
  · rintro u u' x ⟨⟩
  · rintro x (h | h | ⟨u, ⟨⟨⟩⟩ | h | h | h⟩)
    · exact absurd rfl h
    all_goals exact absurd h (hdoing _)
  · rintro _ _ _ _ _ ⟨⟩

variable {s s₁ s₂ : Sys Loc Act Reply Data} {tr tr₁ tr₂ : List (Turn Call Env)}

theorem inv_of_runs (run : Runs (sessionManager timeoutSecs).Step
    (sessionManager timeoutSecs).start tr s) : Inv s.focusAt s.data := by
  refine Service.focus_invariant agrees_start inv_start ?_ ?_ ?_ (runs_any run)
  · exact fun _ hu hnone _ henter => hu.enter hnone henter
  · exact fun hu => ⟨hu.balanced, hu.known, hu.apart, hu.nodup⟩
  · exact fun _ hagree hu hproc _ => hu.exec (hagree.alone_act hproc) (focusAt_act hproc)

/-! ## §3  Revoking all sessions of a user -/

/-- No call is in progress. -/
def Quiet (s : Sys Loc Act Reply Data) : Prop := ∀ t, s.procs t = none

theorem quiet_of_calls (run : Runs (sessionManager timeoutSecs).Step
    (sessionManager timeoutSecs).start tr s)
    (h : ∀ t ∈ s.calls, (s.procs t).isNone = true) : Quiet s := by
  intro t
  by_cases hmem : t ∈ s.calls
  · exact Option.isNone_iff_eq_none.mp (h t hmem)
  · exact (agrees_of_runs agrees_start run).free hmem

/-- The two maps say the same. -/
def Agree (d : Data) : Prop :=
  ∀ userId token, (d.listed userId).count token = if d.owner token = some userId then 1 else 0

theorem Inv.agree (h : Inv (fun _ => none) d) : Agree d := by
  intro userId token
  have hidle (R : Act → Prop) : ¬ Doing (fun _ => none) R := by
    rintro ⟨_, _, ⟨⟩, _⟩
  have hiff : d.owner token = some userId ↔ token ∈ d.listed userId :=
    h.balanced.owner_iff (hidle _) (hidle _) (hidle _)
  split
  · rename_i howner
    exact List.count_eq_one_of_mem (h.nodup userId) (hiff.mp howner)
  · rename_i howner
    exact List.count_eq_zero_of_not_mem (hiff.not.mp howner)

theorem Quiet.focusAt (h : Quiet s) : s.focusAt = fun _ => none := by
  funext t
  simp [Sys.focusAt, h t]

/-- What `validate_session` reads. -/
def validateSession (d : Data) (token : String) : Option AuthUser :=
  (d.sessions.lookup token).bind (fun s => if s.isExpired d.now then none else some s.authUser)

theorem validateSession_eq_some {user : AuthUser} :
    validateSession d token = some user ↔ (exec (.validateRead token) d).2 =
      .unlock .sessions .read (.halt (.validated (.ok user))) := by
  simp only [validateSession, exec]
  cases hlookup : d.sessions.lookup token with
  | none => simp
  | some s =>
      by_cases hexpired : s.isExpired d.now
      · simp [hexpired, revokeCode]
      · simp [hexpired]

theorem owner_of_validate {user : AuthUser} (h : validateSession d token = some user) :
    d.owner token = some user.id := by
  simp only [validateSession, Option.bind_eq_some_iff] at h
  obtain ⟨s, hlookup, hs⟩ := h
  split at hs
  · cases hs
  · cases hs
    simp [Data.owner, hlookup, SecuritySession.authUser]

/-- The token was drawn and its `create_session` is done. -/
def Created (s : Sys Loc Act Reply Data) (token : String) : Prop :=
  token ∈ s.data.tokens ∧ ∀ t a, s.focusAt t = some a → a.creates ≠ some token

/-- The call `t` of `revoke_all_user_sessions` runs: a session of the user that was there
before still waits for it, or for a call that has taken the list. -/
structure Revoking (t : ℕ) (userId token : String) (f : ℕ → Option Act) (d : Data) : Prop where
  inv : Inv f d
  drawn : token ∈ d.tokens
  created : ∀ {t a}, f t = some a → a.creates ≠ some token
  pending : d.owner token = some userId →
    f t = some (.revokeAllTake userId) ∨ Doing f (Act.Clears userId token)

/-- A session that is there after an action was there before, or was created by it. -/
theorem owner_of_exec (h : (exec a d).1.owner token = some userId)
    (hcreated : a.creates ≠ some token) : d.owner token = some userId := by
  cases a
  case createInsert s =>
    have hne : token ≠ s.token := by
      rintro rfl
      exact hcreated rfl
    simpa [exec, Data.owner, HashMap.lookup_insert_eq, hne] using h
  case refreshUpdate token' =>
    simp only [exec] at h
    split at h
    · exact h
    · rename_i s hlookup
      split at h
      · exact h
      · have hsame : Data.owner { d with
            sessions := d.sessions.insert token'
              { s with expiresAt := d.expiry, lastActivity := d.now } } = d.owner :=
          owner_insert hlookup rfl
        exact (congrFun hsame token).symm.trans h
  case validateRead token' =>
    simp only [exec] at h
    split at h
    · exact h
    · split at h <;> exact h
  case revokeRemove token' k =>
    simp only [exec] at h
    split at h
    · exact h
    · simp only [Data.owner, HashMap.lookup_erase_eq] at h
      split at h
      · cases h
      · exact h
  case revokeRetain token' user k =>
    simp only [exec] at h
    split at h <;> exact h
  case revokeAllRemove user tokens =>
    simp only [exec, Data.owner, HashMap.lookup_eraseAll] at h
    split at h
    · cases h
    · exact h
  all_goals exact h

/-- A call that has taken the list removes the sessions itself. -/
theorem clearing_exec (hf : f t = some a) (hclear : Doing f (Act.Clears userId token))
    (howner : (exec a d).1.owner token = some userId) :
    Doing (Function.update f t (exec a d).2.focus) (Act.Clears userId token) := by
  rcases (doing_iff hf).mp hclear with hclears | ⟨t', a', hne, hf', hclears⟩
  · cases a
    case revokeAllRemove user tokens =>
      simp [exec, Data.owner, HashMap.lookup_eraseAll, hclears.2] at howner
    all_goals exact hclears.elim
  · exact ⟨t', a', by rwa [Function.update_of_ne hne], hclears⟩

theorem Revoking.exec {t₀ : ℕ} (h : Revoking t₀ userId token f d)
    (halone : Alone (sessionManager timeoutSecs) f t a) (hf : f t = some a) :
    Revoking t₀ userId token (Function.update f t (exec a d).2.focus) (exec a d).1 := by
  refine ⟨h.inv.exec halone hf, by rw [tokens_exec]; exact h.drawn, ?_, ?_⟩
  · intro t' a' hf' hc
    rcases update_eq_some hf' with ⟨-, heq⟩ | ⟨-, hf'⟩
    · exact h.created hf (creates_exec (by rw [heq, Option.bind_some, hc]))
    · exact h.created hf' hc
  · intro howner
    have hbefore := owner_of_exec howner (h.created hf)
    rcases h.pending hbefore with htake | hclear
    · by_cases heq : t₀ = t
      · subst heq
        rw [hf] at htake
        cases htake
        -- the session is listed, or another call has taken the list already
        rcases h.inv.balanced.kept hbefore with hlisted | ⟨t', a', hf', hpush⟩ | hclear
        · exact Or.inr (doing_update_some.mpr (Or.inl ⟨rfl, hlisted⟩))
        · exact absurd (creates_of_pushes hpush) (h.created hf')
        · exact Or.inr (clearing_exec hf hclear howner)
      · exact Or.inl (by rwa [Function.update_of_ne heq])
    · exact Or.inr (clearing_exec hf hclear howner)

theorem Revoking.enter {t₀ : ℕ} {c : Call} {p : Code} (h : Revoking t₀ userId token f d)
    (hnone : f t = none) (henter : enter c d = some (d', p)) :
    Revoking t₀ userId token (Function.update f t p.focus) d' := by
  have hkeep {t' : ℕ} {a' : Act} (hf : f t' = some a') :
      Function.update f t p.focus t' = some a' := by
    rw [Function.update_of_ne]
    · exact hf
    · rintro rfl
      rw [hnone] at hf
      cases hf
  obtain ⟨howner, -, hnext⟩ := enter_eq henter
  refine ⟨h.inv.enter hnone henter, ?_, ?_, ?_⟩
  · rcases hnext with ⟨user, token', -, -, htokens⟩ | ⟨-, htokens⟩
    · exact htokens ▸ List.mem_cons_of_mem _ h.drawn
    · exact htokens ▸ h.drawn
  · intro t' a' hf hc
    rcases update_eq_some hf with ⟨-, heq⟩ | ⟨-, hf⟩
    · rcases hnext with ⟨user, token', hfocus, hnew, -⟩ | ⟨hidle, -⟩
      · cases hfocus.symm.trans heq
        cases hc
        exact hnew h.drawn
      · rw [(hidle _ heq).creates] at hc
        cases hc
    · exact h.created hf hc
  · intro hafter
    rcases h.pending (howner ▸ hafter) with htake | ⟨t', a', hf, hclears⟩
    · exact Or.inl (hkeep htake)
    · exact Or.inr ⟨t', a', hkeep hf, hclears⟩

theorem pending_of_runs {i : Turn Call Env}
    (run₁ : Runs (sessionManager timeoutSecs).Step (sessionManager timeoutSecs).start tr₁ s₁)
    (hcall : i = .call t (.revokeAllUserSessions userId))
    (hstep : (sessionManager timeoutSecs).Step s₁ i s₂) (hcreated : Created s₁ token)
    (run : Runs (sessionManager timeoutSecs).Step s₂ tr₂ s) :
    Revoking t userId token s.focusAt s.data := by
  have hinv : Inv s₂.focusAt s₂.data := inv_of_runs (run₁.snoc hstep)
  have hagree := agrees_of_runs agrees_start run₁
  have hagree₂ := agrees_of_runs agrees_start (run₁.snoc hstep)
  have hstart : Revoking t userId token s₂.focusAt s₂.data := by
    subst hcall
    obtain ⟨j, hnext⟩ := hstep
    obtain ⟨rfl, hmove⟩ := moves_of_next hnext
    cases hmove with
    | call hnew henter =>
        cases henter
        rw [focusAt_update (s := s₁) rfl] at hinv ⊢
        refine ⟨hinv, hcreated.1, ?_, fun _ => Or.inl (Function.update_self ..)⟩
        intro t' a' hf hc
        rcases update_eq_some hf with ⟨-, ⟨⟩⟩ | ⟨-, hf⟩
        · cases hc
        · exact hcreated.2 t' a' hf hc
  refine Service.focus_invariant hagree₂ hstart ?_ ?_ ?_ (runs_any run)
  · exact fun _ hu hnone _ henter => hu.enter hnone henter
  · intro f d e hu
    exact ⟨⟨hu.inv.balanced, hu.inv.known, hu.inv.apart, hu.inv.nodup⟩, hu.drawn, hu.created,
      hu.pending⟩
  · exact fun _ hagree hu hproc _ => hu.exec (hagree.alone_act hproc) (focusAt_act hproc)

/-! ## §4  Active users -/

/-- The users of the sessions, each once. -/
def usersWithSessions (d : Data) : List String := (d.sessions.entries.map (·.2.userId)).dedup

/-- No user has an empty list. -/
def NoEmptyList (d : Data) : Prop := ∀ userId tokens, d.userSessions.lookup userId = some tokens →
  tokens ≠ []

theorem mem_usersWithSessions :
    userId ∈ usersWithSessions d ↔ ∃ token, d.owner token = some userId := by
  simp only [usersWithSessions, List.mem_dedup, List.mem_map, Data.owner, Option.map_eq_some_iff]
  constructor
  · rintro ⟨⟨token, s⟩, hmem, rfl⟩
    exact ⟨token, s, AList.mem_lookup_iff.mpr hmem, rfl⟩
  · rintro ⟨token, s, hlookup, rfl⟩
    exact ⟨⟨token, s⟩, AList.mem_lookup_iff.mp hlookup, rfl⟩

theorem length_eq_iff_of_subset {α : Type} {l l' : List α} (h : l.Nodup) (h' : l'.Nodup)
    (hsub : l ⊆ l') : l'.length = l.length ↔ l' ⊆ l := by
  constructor
  · intro hlen
    exact ((h.subperm hsub).perm_of_length_le hlen.le).symm.subset
  · intro hsub'
    exact ((List.perm_ext_iff_of_nodup h' h).mpr fun a => ⟨@hsub' a, @hsub a⟩).length_eq

/-- With the maps in agreement, users are miscounted just when a list is empty. -/
theorem Agree.activeUserCount (h : Agree d) :
    d.activeUserCount = (usersWithSessions d).length ↔ NoEmptyList d := by
  have hmem (userId token : String) :
      token ∈ d.listed userId ↔ d.owner token = some userId := by
    rw [← List.count_pos_iff, h userId token]
    split <;> simp [*]
  have hsub : usersWithSessions d ⊆ d.userSessions.keys := by
    intro userId huser
    obtain ⟨token, howner⟩ := mem_usersWithSessions.mp huser
    by_contra hkey
    have hnone : d.userSessions.lookup userId = none := AList.lookup_eq_none.mpr hkey
    have hlisted := (hmem userId token).mpr howner
    simp [Data.listed, hnone] at hlisted
  have husers : (usersWithSessions d).Nodup := List.nodup_dedup _
  rw [Data.activeUserCount, length_eq_iff_of_subset husers d.userSessions.keys_nodup hsub]
  constructor
  · rintro hkeys userId _ hlookup rfl
    have hkey : userId ∈ d.userSessions := AList.lookup_isSome.mp (by simp [hlookup])
    obtain ⟨token, howner⟩ := mem_usersWithSessions.mp (hkeys hkey)
    simpa [Data.listed, hlookup] using (hmem userId token).mpr howner
  · intro hfull userId hkey
    obtain ⟨tokens, hlookup⟩ := Option.isSome_iff_exists.mp (AList.lookup_isSome.mpr hkey)
    obtain ⟨token, htoken⟩ := List.exists_mem_of_ne_nil _ (hfull _ _ hlookup)
    refine mem_usersWithSessions.mpr ⟨token, (hmem userId token).mp ?_⟩
    simpa [Data.listed, hlookup] using htoken

/-- `revoke_session` strikes off a token that is not the last one of its user. -/
def LeavesToken (s : Sys Loc Act Reply Data) (_ : ℕ) : Act → Prop
  | .revokeRetain token userId _ =>
      ∀ tokens ∈ s.data.userSessions.lookup userId, ∃ x ∈ tokens, x ≠ token
  | _ => True

instance LeavesToken.decidable (s : Sys Loc Act Reply Data) (t : ℕ) :
    ∀ a, Decidable (LeavesToken s t a)
  | .revokeRetain token userId _ => inferInstanceAs (Decidable
      (∀ tokens ∈ s.data.userSessions.lookup userId, ∃ x ∈ tokens, x ≠ token))
  | .createClock _ _ | .createInsert _ | .createPush _ _ | .validateRead _ | .refreshUpdate _
  | .revokeRemove _ _ | .revokeAllTake _ | .revokeAllRemove _ _ | .getRead _ | .listRead _
  | .cleanupClock _ | .cleanupCollect _ _ | .countSessions | .countUsers =>
      inferInstanceAs (Decidable True)

theorem noEmptyList_exec (h : NoEmptyList s.data) (hleaves : LeavesToken s t a) :
    NoEmptyList (exec a s.data).1 := by
  cases a
  case createPush user token =>
    intro userId tokens hlookup
    simp only [exec, HashMap.lookup_insert_eq] at hlookup
    split at hlookup
    · cases hlookup
      simp
    · exact h _ _ hlookup
  case revokeRetain token user k =>
    intro userId tokens hlookup
    simp only [exec] at hlookup
    split at hlookup
    · exact h _ _ hlookup
    · rename_i old hold
      simp only [HashMap.lookup_insert_eq] at hlookup
      split at hlookup
      · cases hlookup
        obtain ⟨x, hx, hne⟩ := hleaves old hold
        exact List.ne_nil_of_mem (List.mem_filter.mpr ⟨hx, by simpa using hne⟩)
      · exact h _ _ hlookup
  case revokeAllTake user =>
    intro userId tokens hlookup
    simp only [exec, HashMap.lookup_erase_eq] at hlookup
    split at hlookup
    · cases hlookup
    · exact h _ _ hlookup
  case refreshUpdate token =>
    simp only [exec]
    split
    · exact h
    · split <;> exact h
  case validateRead token =>
    simp only [exec]
    split
    · exact h
    · split <;> exact h
  case revokeRemove token k =>
    simp only [exec]
    split <;> exact h
  all_goals exact h

theorem userSessions_enter {c : Call} {p : Code} (h : enter c d = some (d', p)) :
    d'.userSessions = d.userSessions := by
  revert h
  fun_cases enter c d
  all_goals rintro ⟨⟩
  all_goals rfl

theorem noEmptyList_of_runs {K : Sys Loc Act Reply Data → Call → Prop}
    (run : Runs (StepWhere (sessionManager timeoutSecs).Step (TurnsWhere K LeavesToken))
      (sessionManager timeoutSecs).start tr s) : NoEmptyList s.data := by
  refine Service.focus_invariant (P := fun _ d => NoEmptyList d) agrees_start ?_ ?_ ?_ ?_ run
  · rintro _ _ ⟨⟩
  · intro _ u t c d p _ hu _ _ henter
    rw [NoEmptyList, userSessions_enter henter]
    exact hu
  · exact fun hu => hu
  · exact fun _ _ hu _ hleaves => noEmptyList_exec hu hleaves

/-- Sessions of users, over every run. -/
theorem user_sessions_agree (run : Runs (sessionManager timeoutSecs).Step
    (sessionManager timeoutSecs).start tr s) :
    -- with no call in progress, a token is listed under a user once or not at all, and just
    -- when it has a session of that user
    (Quiet s → Agree s.data) ∧
    -- after `revoke_all_user_sessions`, an earlier session of the user is valid only as long
    -- as another such call has it on its list
    (∀ {tr₁ s₁ s₂ tr₂ t i userId token user},
      Runs (sessionManager timeoutSecs).Step (sessionManager timeoutSecs).start tr₁ s₁ →
      i = .call t (.revokeAllUserSessions userId) → (sessionManager timeoutSecs).Step s₁ i s₂ →
      Created s₁ token → Runs (sessionManager timeoutSecs).Step s₂ tr₂ s → s.procs t = none →
      validateSession s.data token = some user → user.id = userId →
      ¬ Quiet s ∧ ∃ t' tokens, t' ≠ t ∧ token ∈ tokens ∧
        s.focusAt t' = some (.revokeAllRemove userId tokens)) ∧
    -- the users are counted right just when no list is empty,
    (Quiet s → (s.data.activeUserCount = (usersWithSessions s.data).length ↔
      NoEmptyList s.data)) ∧
    -- and so when no revocation has struck off the last token of a user
    (Runs (StepWhere (sessionManager timeoutSecs).Step (TurnsWhere (fun _ _ => True) LeavesToken))
        (sessionManager timeoutSecs).start tr s → Quiet s →
      s.data.activeUserCount = (usersWithSessions s.data).length) := by
  have hinv : Inv s.focusAt s.data := inv_of_runs run
  have hagree (hquiet : Quiet s) : Agree s.data := (hquiet.focusAt ▸ hinv).agree
  refine ⟨hagree, ?_, fun hquiet => (hagree hquiet).activeUserCount, ?_⟩
  · rintro tr₁ s₁ s₂ tr₂ t i userId token user run₁ hcall hstep hcreated run₂ hdone hvalid rfl
    have hpending : Revoking t user.id token s.focusAt s.data :=
      pending_of_runs run₁ hcall hstep hcreated run₂
    have hnone : s.focusAt t = none := by simp [Sys.focusAt, hdone]
    rcases hpending.pending (owner_of_validate hvalid) with htake | ⟨t', a, hf, hclears⟩
    · rw [hnone] at htake
      cases htake
    · cases a
      case revokeAllRemove userId tokens =>
        obtain ⟨rfl, hmem⟩ := hclears
        refine ⟨fun hquiet => ?_, t', tokens, ?_, hmem, hf⟩
        · rw [hquiet.focusAt] at hf
          cases hf
        · rintro rfl
          rw [hnone] at hf
          cases hf
      all_goals exact hclears.elim
  · exact fun hleaves hquiet => (hagree hquiet).activeUserCount.mpr (noEmptyList_of_runs hleaves)

/-- A user logs in and out again. -/
def loginLogout : List (Turn Call Env) :=
  .call 0 (.createSession ⟨"alice", "alice", "Alice", none, none, [], "local"⟩ "token") ::
    List.replicate 10 (.run 0) ++ .call 1 (.revokeSession "token") :: List.replicate 9 (.run 1)

theorem empty_list_counts :
    ∃ tr s, Runs (sessionManager 3600).Step (sessionManager 3600).start tr s ∧ Quiet s ∧
      usersWithSessions s.data = [] ∧ s.data.activeUserCount = 1 := by
  have run : Runs (sessionManager 3600).Step (sessionManager 3600).start _ _ :=
    runs_of_exec_isSome loginLogout (by decide)
  exact ⟨_, _, run, quiet_of_calls run (by decide), by decide, by decide⟩

/-- The user logs in twice and then ends the first session. -/
def secondLogin : List (Turn Call Env) :=
  loginLogout.take 11 ++
    .call 2 (.createSession ⟨"alice", "alice", "Alice", none, none, [], "local"⟩ "second") ::
    List.replicate 10 (.run 2) ++ loginLogout.drop 11

theorem user_sessions_agree_secondLogin :
    ∃ tr s, Runs (sessionManager 3600).Step (sessionManager 3600).start tr s ∧ Quiet s ∧
      Agree s.data ∧ s.data.listed "alice" = ["second"] ∧
      s.data.activeUserCount = (usersWithSessions s.data).length := by
  have run : Runs (StepWhere (sessionManager 3600).Step (TurnsWhere (fun _ _ => True) LeavesToken))
      (sessionManager 3600).start _ _ := runs_where_of_exec secondLogin (by decide)
  have run' := run.mono fun _ _ _ _ h => h.1
  have hquiet := quiet_of_calls run' (by decide)
  obtain ⟨hagree, -, -, hcount⟩ := user_sessions_agree run'
  exact ⟨_, _, run', hquiet, hagree hquiet, by decide, hcount run hquiet⟩

end Oclaw.SecurityCore.Session
