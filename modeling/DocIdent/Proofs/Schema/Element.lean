import DocIdent.Proofs.Schema.RoundTrip
import DocIdent.Schema.Element

/-!
# Elements and modules read back from their documents

An element is read back from its document in any notation, if every identifier in it is well formed
(`Element.ofDocument?_toDocument`), and so is a module (`Module.ofDocument?_toDocument`). As for
types, the depth of the document bounds the reading: the elements inside an element are read within
one level less.
-/

namespace DocIdent

variable {dialect : Dialect}

namespace Element

/-- The elements inside an element are visited with it. -/
theorem mem_walk_of_mem_walkEach {d : Identifier} {name : String} {kind : Kind}
    {children : List Element} {f : Element} (h : f ∈ walkEach children) :
    f ∈ walk (mk d name kind children) := by
  rw [walk]
  exact .tail _ h

/-- A kind is read back from its word. -/
@[simp] theorem Kind.ofDocument?_word (k : Kind) : Kind.ofDocument? (.text k.word) = some k := by
  cases k <;> rfl

mutual

/-- An element is read back from its document within any bound on its depth. -/
theorem ofDocumentWithin?_toDocument : ∀ (e : Element) (bound : Nat),
    (∀ f ∈ e.walk, f.identifier.WellFormed) → (toDocument e).depth < bound →
      ofDocumentWithin? dialect bound (toDocument e) = some e
  | e, 0, _, hdepth => absurd hdepth (Nat.not_lt_zero _)
  | mk d name kind children, bound + 1, h, hdepth => by
    have hfields : Document.fields? dialect ["dri", "name", "kind", "children"]
        (toDocument (mk d name kind children)) =
          some [some d.toDocument, some (.text name), some (.text kind.word),
            some (.list (toDocuments children))] :=
      Document.fields?_record [("dri", d.toDocument), ("name", .text name),
        ("kind", .text kind.word), ("children", .list (toDocuments children))] (by simp)
    have hd : Identifier.ofDocument? dialect d.toDocument = some d :=
      Identifier.ofDocument?_toDocument (h (mk d name kind children) (by simp [walk]))
    have hdepths : Document.depthOfItems (toDocuments children) < bound := by
      simp only [toDocument, Document.depth, Document.depthOfFields] at hdepth
      omega
    have hchildren := mapM_ofDocumentWithin?_toDocuments children bound
      (fun f hf => h f (mem_walk_of_mem_walkEach hf)) hdepths
    rw [ofDocumentWithin?, hfields]
    simp only [hd, Document.text?, Kind.ofDocument?_word, Document.orDefault?, Document.listOf?,
      Document.items?, hchildren, Option.bind_eq_bind, Option.bind_some]
    rfl

theorem mapM_ofDocumentWithin?_toDocuments : ∀ (es : List Element) (bound : Nat),
    (∀ f ∈ walkEach es, f.identifier.WellFormed) →
      Document.depthOfItems (toDocuments es) < bound →
        (toDocuments es).mapM (ofDocumentWithin? dialect bound) = some es
  | [], _, _, _ => rfl
  | e :: es, bound, h, hdepth => by
    rw [toDocuments, Document.depthOfItems, Nat.max_lt] at hdepth
    rw [walkEach, List.forall_mem_append] at h
    rw [toDocuments, List.mapM_cons, ofDocumentWithin?_toDocument e bound h.1 hdepth.1,
      mapM_ofDocumentWithin?_toDocuments es bound h.2 hdepth.2]
    rfl

end

/-- **An element is read back** from its document. -/
theorem ofDocument?_toDocument {e : Element} (h : ∀ f ∈ e.walk, f.identifier.WellFormed) :
    ofDocument? dialect e.toDocument = some e :=
  ofDocumentWithin?_toDocument e _ h (Nat.lt_succ_self _)

/-- Elements are read back from the list of their documents. -/
theorem listOf?_toDocuments {es : List Element}
    (h : ∀ f ∈ walkEach es, f.identifier.WellFormed) :
    (Document.list (toDocuments es)).listOf? (ofDocument? dialect) = some es := by
  rw [walkEach_eq_flatMap] at h
  rw [Document.listOf?, Document.items?, toDocuments_eq_map]
  exact mapM_map_eq_some fun e he =>
    ofDocument?_toDocument fun f hf => h f (List.mem_flatMap.2 ⟨e, he, hf⟩)

end Element

/-- A platform is read back from its word. -/
@[simp] theorem Platform.ofDocument?_word (p : Platform) : ofDocument? (.text p.word) = some p := by
  cases p <;> rfl

/-- What a module was made for is read back from its document. -/
@[simp] theorem PlatformData.ofDocument?_toDocument (p : PlatformData) :
    ofDocument? dialect p.toDocument = some p := by
  obtain ⟨platform, targets⟩ := p
  have hfields : Document.fields? dialect ["platform", "targets"]
      (toDocument ⟨platform, targets⟩) =
        some [some (.text platform.word), some (.list (targets.map .text))] :=
    Document.fields?_record [("platform", .text platform.word),
      ("targets", .list (targets.map .text))] (by simp)
  have htargets : (Document.list (targets.map .text)).listOf? Document.text? = some targets :=
    mapM_map_eq_some fun _ _ => rfl
  rw [ofDocument?, hfields]
  simp only [Platform.ofDocument?_word, htargets, Option.bind_eq_bind, Option.bind_some]
  rfl

/-- **A module is read back** from its document. -/
theorem Module.ofDocument?_toDocument {m : Module} (h : ∀ d ∈ m.identifiers, d.WellFormed) :
    ofDocument? dialect m.toDocument = some m := by
  obtain ⟨name, platformData, packages⟩ := m
  have hfields : Document.fields? dialect ["name", "platform_data", "packages"]
      (toDocument ⟨name, platformData, packages⟩) =
        some [some (.text name), some platformData.toDocument,
          some (.list (Element.toDocuments packages))] :=
    Document.fields?_record [("name", .text name), ("platform_data", platformData.toDocument),
      ("packages", .list (Element.toDocuments packages))] (by simp)
  have hpackages : (Document.list (Element.toDocuments packages)).listOf?
      (Element.ofDocument? dialect) = some packages :=
    Element.listOf?_toDocuments fun f hf => h f.identifier (List.mem_map_of_mem hf)
  rw [ofDocument?, hfields]
  simp only [Document.text?, PlatformData.ofDocument?_toDocument, hpackages, Option.bind_eq_bind,
    Option.bind_some]
  rfl

end DocIdent
