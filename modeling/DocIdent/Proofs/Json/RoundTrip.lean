import DocIdent.Proofs.Json.Reader
import DocIdent.Proofs.Schema.Element

/-!
# Values read back from JSON

Whatever is laid out as a document is laid out as texts, words, lists and records, so its text is
read as the document again (`Json.read?_compact`), and the document as the value
(`Json.bind_read?_compact`). This holds of types, targets, callables, identifiers, lock entries,
elements and modules (`Json.read_compact_all`): their texts may be read up to the limit on nesting.
-/

namespace DocIdent

open Document

/-! ## What values are laid out as -/

namespace TypeRef

mutual

/-- Types are laid out as basic documents. -/
theorem isBasic_toDocument : ∀ t : TypeRef, t.toDocument.IsBasic
  | .named _ => ⟨trivial, trivial, trivial⟩
  | .parameter bounds => ⟨trivial, itemsBasic_toDocuments bounds, trivial⟩
  | .applied _ arguments => ⟨trivial, trivial, itemsBasic_toDocuments arguments, trivial⟩
  | .recursive rank => ⟨trivial, isBasic_word rank, trivial⟩
  | .nullable wrapped => ⟨trivial, isBasic_toDocument wrapped, trivial⟩
  | .star => ⟨trivial, trivial⟩

theorem itemsBasic_toDocuments : ∀ ts : List TypeRef, ItemsBasic (toDocuments ts)
  | [] => trivial
  | t :: ts => ⟨isBasic_toDocument t, itemsBasic_toDocuments ts⟩

end

end TypeRef

/-- Targets are laid out as basic documents. -/
theorem Target.isBasic_toDocument (t : Target) : t.toDocument.IsBasic := by
  cases t with
  | declaration => exact ⟨trivial, trivial⟩
  | genericParameter index => exact ⟨trivial, isBasic_word index, trivial⟩
  | callableParameter index => exact ⟨trivial, isBasic_word index, trivial⟩

/-- Callables are laid out as basic documents. -/
theorem Callable.isBasic_toDocument (c : Callable) : c.toDocument.IsBasic :=
  (fieldsBasic_iff _).2 (c.forall_mem_fields trivial TypeRef.isBasic_toDocument
    (TypeRef.itemsBasic_toDocuments c.parameters))

/-- Identifiers are laid out as basic documents. -/
theorem Identifier.isBasic_toDocument (d : Identifier) : d.toDocument.IsBasic := by
  have hcallable : ∀ x ∈ d.callable.map Callable.toDocument, x.IsBasic := by
    intro x hx
    obtain ⟨c, -, rfl⟩ := Option.map_eq_some_iff.1 hx
    exact c.isBasic_toDocument
  exact (fieldsBasic_iff _).2 (Identifier.forall_mem_fieldsWith (fun _ => trivial) hcallable
    d.target.isBasic_toDocument)

/-- Lock entries are laid out as basic documents. -/
theorem LockEntry.isBasic_toDocument (e : LockEntry) : e.toDocument.IsBasic :=
  ⟨trivial, e.identifier.isBasic_toDocument, trivial⟩

namespace Element

mutual

/-- Elements are laid out as basic documents. -/
theorem isBasic_toDocument : ∀ e : Element, e.toDocument.IsBasic
  | mk d _ _ children =>
    ⟨d.isBasic_toDocument, trivial, trivial, itemsBasic_toDocuments children, trivial⟩

theorem itemsBasic_toDocuments : ∀ es : List Element, ItemsBasic (toDocuments es)
  | [] => trivial
  | e :: es => ⟨isBasic_toDocument e, itemsBasic_toDocuments es⟩

end

end Element

/-- Modules are laid out as basic documents. -/
theorem Module.isBasic_toDocument (m : Module) : m.toDocument.IsBasic := by
  have htargets : ItemsBasic (m.platformData.targets.map .text) := by
    rw [itemsBasic_iff]
    intro d hd
    obtain ⟨s, -, rfl⟩ := List.mem_map.1 hd
    trivial
  exact ⟨trivial, ⟨trivial, htargets, trivial⟩, Element.itemsBasic_toDocuments m.packages, trivial⟩

namespace Json

variable {α : Type} {d : Document} {x : α} {read : Document → Option α}

/-- What is read back from a basic document is read back from the text of it. -/
theorem bind_read?_compact (hd : d.IsBasic) (hread : read d = some x)
    (h : d.depth ≤ nestingLimit) : (read? (compact d)).bind read = some x := by
  rw [read?_compact hd h]
  exact hread

/-- **Every value is read back from its JSON text**, if the text does not nest too deep: a type, a
target, a callable, and a well-formed identifier, by itself, in a lock entry, in an element or in a
module. -/
theorem read_compact_all :
    (∀ t : TypeRef, t.toDocument.depth ≤ nestingLimit →
      (read? (compact t.toDocument)).bind (TypeRef.ofDocument? .json) = some t) ∧
    (∀ t : Target, t.toDocument.depth ≤ nestingLimit →
      (read? (compact t.toDocument)).bind (Target.ofDocument? .json) = some t) ∧
    (∀ c : Callable, c.toDocument.depth ≤ nestingLimit →
      (read? (compact c.toDocument)).bind (Callable.ofDocument? .json) = some c) ∧
    (∀ d : Identifier, d.WellFormed → d.toDocument.depth ≤ nestingLimit →
      (read? (compact d.toDocument)).bind (Identifier.ofDocument? .json) = some d) ∧
    (∀ e : LockEntry, e.identifier.WellFormed → e.toDocument.depth ≤ nestingLimit →
      (read? (compact e.toDocument)).bind (LockEntry.ofDocument? .json) = some e) ∧
    (∀ e : Element, (∀ f ∈ e.walk, f.identifier.WellFormed) → e.toDocument.depth ≤ nestingLimit →
      (read? (compact e.toDocument)).bind (Element.ofDocument? .json) = some e) ∧
    (∀ m : Module, (∀ d ∈ m.identifiers, d.WellFormed) → m.toDocument.depth ≤ nestingLimit →
      (read? (compact m.toDocument)).bind (Module.ofDocument? .json) = some m) := by
  refine ⟨fun t => ?_, fun t => ?_, fun c => ?_, fun d hd => ?_, fun e he => ?_, fun e he => ?_,
    fun m hm => ?_⟩
  · exact bind_read?_compact t.isBasic_toDocument t.ofDocument?_toDocument
  · exact bind_read?_compact t.isBasic_toDocument t.ofDocument?_toDocument
  · exact bind_read?_compact c.isBasic_toDocument c.ofDocument?_toDocument
  · exact bind_read?_compact d.isBasic_toDocument (Identifier.ofDocument?_toDocument hd)
  · exact bind_read?_compact e.isBasic_toDocument (LockEntry.ofDocument?_toDocument he)
  · exact bind_read?_compact e.isBasic_toDocument (Element.ofDocument?_toDocument he)
  · exact bind_read?_compact m.isBasic_toDocument (Module.ofDocument?_toDocument hm)

end Json

/-- A parameter whose texts are written with escapes, with types of every kind. -/
def Identifier.quoting : Identifier where
  package := some "\"\\\n\x00"
  metadata := some "é😀"
  callable := some
    { name := ""
      receiver := some (.nullable (.parameter [.recursive 4294967295]))
      parameters := [.applied "\x7f" [.star, .named "/"]] }
  target := .callableParameter 4294967295

theorem Identifier.wellFormed_quoting : quoting.WellFormed where
  package h := absurd (Option.some.inj h) (by decide)
  classPath h := nomatch h
  metadata h := absurd (Option.some.inj h) (by decide)

/-- A function with its parameter inside. -/
def Element.quoting : Element :=
  .mk (Identifier.quoting.withTarget .declaration) "\t" .function
    [.leaf Identifier.quoting "" .parameter]

theorem Element.wellFormed_quoting : ∀ f ∈ quoting.walk, f.identifier.WellFormed := by
  obtain ⟨hpackage, hclassPath, hmetadata⟩ := Identifier.wellFormed_quoting
  intro f hf
  rcases List.mem_pair.1 hf with rfl | rfl
  · exact ⟨hpackage, hclassPath, hmetadata⟩
  · exact ⟨hpackage, hclassPath, hmetadata⟩

/-- A module with this function only. -/
def Module.quoting : Module :=
  ⟨"\x1f", ⟨.native, ["", "linuxX64"]⟩, [.quoting]⟩

namespace Json

/-- Control characters, quotes, empty texts and the last position come back in values of every
kind. -/
theorem read_compact_all_quoting :
    (read? (compact (TypeRef.nullable .star).toDocument)).bind (TypeRef.ofDocument? .json) =
      some (.nullable .star) ∧
    (read? (compact (Target.genericParameter 0).toDocument)).bind (Target.ofDocument? .json) =
      some (.genericParameter 0) ∧
    (read? (compact (Callable.toDocument ⟨"\r", none, []⟩))).bind (Callable.ofDocument? .json) =
      some ⟨"\r", none, []⟩ ∧
    (read? (compact Identifier.quoting.toDocument)).bind (Identifier.ofDocument? .json) =
      some .quoting ∧
    (read? (compact (LockEntry.toDocument ⟨"'", .quoting⟩))).bind (LockEntry.ofDocument? .json) =
      some ⟨"'", .quoting⟩ ∧
    (read? (compact Element.quoting.toDocument)).bind (Element.ofDocument? .json) =
      some .quoting ∧
    (read? (compact Module.quoting.toDocument)).bind (Module.ofDocument? .json) =
      some .quoting := by
  have hwell : ∀ d ∈ Module.quoting.identifiers, d.WellFormed := by
    intro d hd
    obtain ⟨f, hf, rfl⟩ := List.mem_map.1 hd
    exact Element.wellFormed_quoting f hf
  obtain ⟨htype, htarget, hcallable, hidentifier, hentry, helement, hmodule⟩ := read_compact_all
  exact ⟨htype _ (by decide), htarget _ (by decide), hcallable _ (by decide),
    hidentifier _ Identifier.wellFormed_quoting (by decide),
    hentry _ Identifier.wellFormed_quoting (by decide),
    helement _ Element.wellFormed_quoting (by decide), hmodule _ hwell (by decide)⟩

end Json

end DocIdent
