import Oclaw.Lib.Json

/-!
# Derived JSON codecs

What `#[derive(Serialize, Deserialize)]` makes of a type, as a pair of functions with
the law that a value is read back from the tree it is written as. Reading back may
lose the difference between an optional field that holds `null` and one that holds
nothing, so the law names the value that is read: `norm`.

A record is declared once, by its fields in order (`Rec`): each one has a name, a
projection and a codec. Fields that are not declared are ignored on reading, a
declared one that occurs twice is an error, optional fields that hold nothing are not
written, and read as nothing when they are missing or `null`.
-/

namespace Oclaw.Lib

def Json.isNull : Json → Bool
  | null => true
  | _ => false

structure Codec (α : Type) : Type where
  ser : α → Json
  de : Json → Option α
  norm : α → α
  /-- What is read back of an optional field. -/
  normOpt : Option α → Option α
  de_ser : ∀ a, de (ser a) = some (norm a)
  normOpt_none : normOpt none = none
  normOpt_some : ∀ a, normOpt (some a) = if (ser a).isNull then none else some (norm a)

namespace Codec

variable {α β γ : Type}

/-! ## Values -/

def string : Codec String where
  ser := .str
  de := Json.asStr
  norm := id
  normOpt := id
  de_ser _ := rfl
  normOpt_none := rfl
  normOpt_some _ := rfl

def bool : Codec Bool where
  ser := .bool
  de
    | .bool b => some b
    | _ => none
  norm := id
  normOpt := id
  de_ser _ := rfl
  normOpt_none := rfl
  normOpt_some _ := rfl

/-- The integers of a fixed-width type. -/
def int (lo hi : Int) (hlo : -0x8000000000000000 ≤ lo) (hhi : hi ≤ 0x10000000000000000) :
    Codec {z : Int // lo ≤ z ∧ z < hi} where
  ser z := .num (.int z.val ⟨hlo.trans z.property.1, lt_of_lt_of_le z.property.2 hhi⟩)
  de
    | .num (.int z _) => if h : lo ≤ z ∧ z < hi then some ⟨z, h⟩ else none
    | _ => none
  norm := id
  normOpt := id
  de_ser z := dif_pos z.property
  normOpt_none := rfl
  normOpt_some _ := rfl

/-- `Option<Value>`: a `null` that is written reads as nothing. -/
def dropNull : Option Value → Option Value
  | none => none
  | some v => if v.val.isNull then none else some v

def value : Codec Value where
  ser v := v.val
  de j := some j.toValue
  norm := id
  normOpt := dropNull
  de_ser v := by rw [Json.toValue_val, id]
  normOpt_none := rfl
  normOpt_some _ := rfl

/-- An enumeration without data, by the names of its variants. -/
def variants (name : α → String) (all : List α)
    (hall : ∀ a, all.find? (fun b => name b == name a) = some a) : Codec α where
  ser a := .str (name a)
  de
    | .str s => all.find? (fun b => name b == s)
    | _ => none
  norm := id
  normOpt := id
  de_ser := hall
  normOpt_none := rfl
  normOpt_some _ := rfl

def list (c : Codec α) (hexact : ∀ a, c.norm a = a) : Codec (List α) where
  ser xs := .arr (xs.map c.ser)
  de
    | .arr xs => xs.mapM c.de
    | _ => none
  norm := id
  normOpt := id
  de_ser xs := by
    induction xs with
    | nil => rfl
    | cons x xs ih =>
        simp only [List.map_cons, List.mapM_cons, c.de_ser, hexact] at ih ⊢
        simp [ih]
  normOpt_none := rfl
  normOpt_some _ := rfl

/-- A `HashMap<String, _>`. Its entries are written in the order `iter`, which is that
of the hash table, and entered into a map on reading. -/
def hashMap (c : Codec α) (hexact : ∀ a, c.norm a = a)
    (iter : List (String × α) → List (String × α)) (hiter : ∀ es, (iter es).Perm es) :
    Codec {es : List (String × α) // KeysSorted es} where
  ser m := .obj ((iter m.val).map (fun e => (e.1, c.ser e.2)))
  de
    | .obj fields =>
        (fields.mapM (fun e => (c.de e.2).map (fun a => (e.1, a)))).map
          (fun es => ⟨ofEntries es, keysSorted_ofEntries es⟩)
    | _ => none
  norm := id
  normOpt := id
  de_ser m := by
    have hread : ∀ es : List (String × α),
        (es.map (fun e => (e.1, c.ser e.2))).mapM
          (fun e => (c.de e.2).map (fun a => (e.1, a))) = some es := by
      intro es
      induction es with
      | nil => rfl
      | cons e es ih => simp [c.de_ser, hexact, ih]
    simp only [hread, Option.map_some, id]
    exact congrArg some (Subtype.ext (ofEntries_eq (hiter m.val) m.property))
  normOpt_none := rfl
  normOpt_some _ := rfl

end Codec

/-! ## Records -/

/-- The fields of an `α` that have been declared so far, and the `β` that reading them
gives. `get` is what is read back of a value that was written. -/
structure Rec (α β : Type) : Type where
  names : List String
  ser : α → List (String × Json)
  de : (String → Option Json) → Option β
  get : α → β
  keys : ∀ a, ((ser a).map Prod.fst).Sublist names
  de_ser : names.Nodup → ∀ a (find : String → Option Json),
    (∀ n ∈ names, find n = (ser a).lookup n) → de find = some (get a)

theorem lookup_of_not_mem {es : List (String × Json)} {n : String} (h : n ∉ es.map Prod.fst) :
    es.lookup n = none := by
  refine List.lookup_eq_none_iff.mpr ?_
  rintro e he
  exact bne_iff_ne.mpr (fun heq => h (heq ▸ List.mem_map_of_mem he))

namespace Rec

variable {α β γ : Type}

/-- A record without fields. -/
def start (make : β) : Rec α β where
  names := []
  ser _ := []
  de _ := some make
  get _ := make
  keys _ := List.Sublist.refl _
  de_ser _ _ _ _ := rfl

/-- What the fields before a new one find is not affected by it. -/
theorem find_before {r : Rec α β} {name : String} (hnodup : (r.names ++ [name]).Nodup) {a : α}
    {entry : List (String × Json)} (hentry : ∀ e ∈ entry, e.1 = name)
    {find : String → Option Json}
    (hfind : ∀ n ∈ r.names ++ [name], find n = (r.ser a ++ entry).lookup n) :
    r.names.Nodup ∧ (∀ n ∈ r.names, find n = (r.ser a).lookup n) ∧
      find name = entry.lookup name := by
  obtain ⟨hnames, -, hdisj⟩ := List.nodup_append.mp hnodup
  refine ⟨hnames, ?_, ?_⟩
  · intro n hn
    have hother : n ∉ entry.map Prod.fst := by
      rintro hmem
      obtain ⟨e, he, rfl⟩ := List.mem_map.mp hmem
      exact hdisj e.1 hn name (by simp) (hentry e he)
    rw [hfind n (List.mem_append_left _ hn), List.lookup_append, lookup_of_not_mem hother,
      Option.or_none]
  · have hnew : name ∉ (r.ser a).map Prod.fst :=
      fun hmem => hdisj name ((r.keys a).subset hmem) name (by simp) rfl
    rw [hfind name (by simp), List.lookup_append, lookup_of_not_mem hnew, Option.none_or]

/-- A required field. -/
def field (r : Rec α (γ → β)) (name : String) (proj : α → γ) (c : Codec γ) : Rec α β where
  names := r.names ++ [name]
  ser a := r.ser a ++ [(name, c.ser (proj a))]
  de find := do
    let make ← r.de find
    let v ← find name
    let x ← c.de v
    some (make x)
  get a := r.get a (c.norm (proj a))
  keys a := by simpa using (r.keys a).append_right [name]
  de_ser hnodup a find hfind := by
    obtain ⟨hnames, hbefore, hname⟩ := find_before hnodup (by simp) hfind
    rw [r.de_ser hnames a find hbefore, hname]
    simp [c.de_ser]

/-- A field `Option<_>` with `skip_serializing_if = "Option::is_none"`. -/
def opt (r : Rec α (Option γ → β)) (name : String) (proj : α → Option γ) (c : Codec γ) :
    Rec α β where
  names := r.names ++ [name]
  ser a := r.ser a ++ (proj a).toList.map (fun x => (name, c.ser x))
  de find := do
    let make ← r.de find
    match find name with
    | none | some .null => some (make none)
    | some v =>
        let x ← c.de v
        some (make (some x))
  get a := r.get a (c.normOpt (proj a))
  keys a := by
    rw [List.map_append]
    refine (r.keys a).append ?_
    cases proj a <;> simp
  de_ser hnodup a find hfind := by
    obtain ⟨hnames, hbefore, hname⟩ := find_before hnodup (by simp) hfind
    rw [r.de_ser hnames a find hbefore, hname]
    cases hproj : proj a with
    | none => simp [c.normOpt_none]
    | some x =>
        have hread := c.de_ser x
        simp only [Option.toList_some, List.map_cons, List.map_nil, List.lookup_cons,
          beq_self_eq_true, c.normOpt_some]
        cases hser : c.ser x <;> simp_all [Json.isNull]

/-- A field with a fixed value stands before the others. -/
def tagged (r : Rec α β) (key tag : String) : Rec α β where
  names := key :: r.names
  ser a := (key, .str tag) :: r.ser a
  de find := if (find key).bind Json.asStr = some tag then r.de find else none
  get := r.get
  keys a := (r.keys a).cons_cons key
  de_ser hnodup a find hfind := by
    obtain ⟨hnew, hnames⟩ := List.nodup_cons.mp hnodup
    have htag : find key = some (.str tag) := by
      simp [hfind key (by simp)]
    rw [htag, Option.bind_some, Json.asStr, if_pos rfl]
    refine r.de_ser hnames a find ?_
    intro n hn
    have hne : (n == key) = false := beq_eq_false_iff_ne.mpr (fun h => hnew (h ▸ hn))
    rw [hfind n (List.mem_cons_of_mem _ hn), List.lookup_cons, hne]

/-- No declared field occurs twice. -/
def once (names : List String) (fields : List (String × Json)) : Bool :=
  names.all (fun n => fields.countP (fun e => e.1 == n) ≤ 1)

theorem once_ser (r : Rec α β) (hnodup : r.names.Nodup) (a : α) :
    once r.names (r.ser a) = true := by
  refine List.all_eq_true.mpr fun n _ => decide_eq_true ?_
  have hkeys : ((r.ser a).map Prod.fst).Nodup := (r.keys a).nodup hnodup
  have hcount := List.nodup_iff_count_le_one.mp hkeys n
  rwa [List.count, List.countP_map] at hcount

def read (r : Rec α β) : Json → Option β
  | .obj fields => if once r.names fields then r.de (fun n => fields.lookup n) else none
  | _ => none

theorem read_ser (r : Rec α β) (hnodup : r.names.Nodup) (a : α) :
    r.read (.obj (r.ser a)) = some (r.get a) := by
  rw [read, if_pos (r.once_ser hnodup a)]
  exact r.de_ser hnodup a _ (fun _ _ => rfl)

/-- The codec of a record all of whose fields are declared. `norm` says what reading
back makes of it. -/
def codec (r : Rec α α) (norm : α → α) (hnorm : ∀ a, r.get a = norm a) (hnodup : r.names.Nodup) :
    Codec α where
  ser a := .obj (r.ser a)
  de := r.read
  norm := norm
  normOpt := Option.map norm
  de_ser a := by rw [r.read_ser hnodup, hnorm]
  normOpt_none := rfl
  normOpt_some _ := rfl

/-- The codec of a record that is read back as it was written. -/
def exact (r : Rec α α) (hget : ∀ a, r.get a = a) (hnodup : r.names.Nodup) : Codec α where
  ser a := .obj (r.ser a)
  de := r.read
  norm := id
  normOpt := id
  de_ser a := by rw [r.read_ser hnodup, hget, id]
  normOpt_none := rfl
  normOpt_some _ := rfl

theorem read_tagged_congr {r r' : Rec α β} (hnames : r.names = r'.names) (hde : r.de = r'.de)
    (key tag : String) : (r.tagged key tag).read = (r'.tagged key tag).read := by
  have htagged : (r.tagged key tag).names = (r'.tagged key tag).names ∧
      (r.tagged key tag).de = (r'.tagged key tag).de := by
    simp [tagged, hnames, hde]
  funext j
  cases j <;> simp only [read, htagged]

/-- A record is not read from one with another tag. -/
theorem read_tagged_of_ne (r : Rec α β) (r' : Rec γ γ) {key tag tag' : String} (h : tag' ≠ tag)
    (c : γ) : (r.tagged key tag).read (.obj ((r'.tagged key tag').ser c)) = none := by
  have hfind : ((r'.tagged key tag').ser c).lookup key = some (.str tag') := by
    simp [tagged]
  have hde : (r.tagged key tag).de (fun n => ((r'.tagged key tag').ser c).lookup n) = none := by
    refine if_neg ?_
    simp only [hfind, Option.bind_some, Json.asStr]
    exact fun heq => h (Option.some.inj heq)
  rw [read, hde, ite_self]

end Rec

end Oclaw.Lib
