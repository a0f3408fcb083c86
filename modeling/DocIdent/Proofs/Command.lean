import DocIdent.Command
import DocIdent.Proofs.FileTree

/-!
# What a command does to the tree

The steps of an action go on from the tree that the last one left, and the first that fails ends it
(`Action.runIn_bind_eq_ok_iff`, `Action.runIn_bind_eq_error_iff`). Reading leaves the tree as it was
(`Action.OnlyReads`), and so does a change that cannot be made. An action that fails therefore
leaves the tree as it was if it only reads before it changes something, and nothing can fail after
that (`Action.KeepsOnFailure`). All commands are of this kind: those that report only read, and
making a lock writes it last. So a command that fails leaves the tree as it was
(`Command.tree_eq_of_run_eq_error`).
-/

namespace DocIdent

namespace Action

variable {α β : Type} {x : Action α} {g : α → Action β} {a : α} {b : β} {failure : Failure}
  {t t' : FileTree}

/-! ## Step by step -/

@[simp]
theorem runIn_pure (a : α) (t : FileTree) : (pure a : Action α).runIn t = (.ok a, t) := rfl

@[simp]
theorem runIn_ofExcept (answer : Except Failure α) (t : FileTree) :
    (ofExcept answer : Action α).runIn t = (answer, t) := by
  cases answer with
  | error failure => rfl
  | ok a => rfl

@[simp]
theorem runIn_reading (f : FileTree → Except Failure α) (t : FileTree) :
    (reading f).runIn t = (f t, t) :=
  runIn_ofExcept (f t) t

/-- What follows a step goes on from the tree that the step left, unless the step failed. -/
theorem runIn_bind (x : Action α) (g : α → Action β) (t : FileTree) :
    (x >>= g).runIn t =
      match x.runIn t with
      | (.ok a, inner) => (g a).runIn inner
      | (.error failure, inner) => (.error failure, inner) := by
  have hrun : (x >>= g).runIn t =
      (ExceptT.bindCont g (x.runIn t).1 : StateM FileTree _) (x.runIn t).2 := rfl
  rw [hrun]
  rcases x.runIn t with ⟨failure | a, inner⟩
  · rfl
  · rfl

/-- A step and what follows it end well exactly if both do. -/
theorem runIn_bind_eq_ok_iff :
    (x >>= g).runIn t = (.ok b, t') ↔
      ∃ a inner, x.runIn t = (.ok a, inner) ∧ (g a).runIn inner = (.ok b, t') := by
  rw [runIn_bind]
  rcases x.runIn t with ⟨failure | a, inner⟩
  · simp
  · simp

/-- They fail exactly if the step fails, or what follows it does in the tree that the step left. -/
theorem runIn_bind_eq_error_iff :
    (x >>= g).runIn t = (.error failure, t') ↔
      x.runIn t = (.error failure, t') ∨
        ∃ a inner, x.runIn t = (.ok a, inner) ∧ (g a).runIn inner = (.error failure, t') := by
  rw [runIn_bind]
  rcases x.runIn t with ⟨failure | a, inner⟩
  · simp
  · simp

/-- What is made of an answer does not concern the tree. -/
theorem runIn_reading_bind_pure (f : FileTree → Except Failure α) (h : α → β) (t : FileTree) :
    (reading f >>= fun a => pure (h a)).runIn t = ((f t).map h, t) := by
  rw [runIn_bind, runIn_reading]
  cases f t with
  | error failure => rfl
  | ok a => rfl

theorem runIn_changing (f : FileTree → Except Failure FileTree) (t : FileTree) :
    (changing f).runIn t =
      match f t with
      | .ok changed => (.ok (), changed)
      | .error failure => (.error failure, t) := by
  have hsteps : changing f = reading f >>= set := rfl
  rw [hsteps, runIn_bind, runIn_reading]
  cases f t with
  | error failure => rfl
  | ok changed => rfl

/-- A change is made exactly if it can be. -/
theorem runIn_changing_eq_ok_iff {f : FileTree → Except Failure FileTree} {u : Unit} :
    (changing f).runIn t = (.ok u, t') ↔ f t = .ok t' := by
  rw [runIn_changing]
  cases f t with
  | error failure => simp
  | ok changed => simp

/-- A change that cannot be made leaves the tree as it was. -/
theorem runIn_changing_eq_error_iff {f : FileTree → Except Failure FileTree} :
    (changing f).runIn t = (.error failure, t') ↔ f t = .error failure ∧ t' = t := by
  rw [runIn_changing]
  cases f t with
  | error failure => simp [eq_comm]
  | ok changed => simp

/-! ## What is left of the tree -/

/-- The action leaves the tree as it was. -/
def OnlyReads (x : Action α) : Prop :=
  ∀ t, (x.runIn t).2 = t

/-- The action leaves the tree as it was if it fails. -/
def KeepsOnFailure (x : Action α) : Prop :=
  ∀ t failure t', x.runIn t = (.error failure, t') → t' = t

theorem onlyReads_pure (a : α) : OnlyReads (pure a) := fun _ => rfl

theorem onlyReads_reading (f : FileTree → Except Failure α) : (reading f).OnlyReads := fun t => by
  rw [runIn_reading]

theorem OnlyReads.bind (hx : x.OnlyReads) (hg : ∀ a, (g a).OnlyReads) : (x >>= g).OnlyReads := by
  intro t
  have hfirst := hx t
  rw [runIn_bind]
  rcases hrun : x.runIn t with ⟨failure | a, inner⟩
  · rwa [hrun] at hfirst
  · rw [hrun] at hfirst
    exact (hg a inner).trans hfirst

theorem OnlyReads.keepsOnFailure (hx : x.OnlyReads) : x.KeepsOnFailure := by
  intro t failure t' hrun
  have hsame := hx t
  rwa [hrun] at hsame

theorem keepsOnFailure_changing (f : FileTree → Except Failure FileTree) :
    (changing f).KeepsOnFailure := fun _ _ _ hrun => (runIn_changing_eq_error_iff.1 hrun).2

/-- Reading may come before what keeps the tree. -/
theorem OnlyReads.bind_keepsOnFailure (hx : x.OnlyReads) (hg : ∀ a, (g a).KeepsOnFailure) :
    (x >>= g).KeepsOnFailure := by
  intro t failure t' hrun
  rcases runIn_bind_eq_error_iff.1 hrun with hrun | ⟨a, inner, hfirst, hrun⟩
  · exact hx.keepsOnFailure t failure t' hrun
  · have hsame := hx t
    rw [hfirst] at hsame
    exact (hg a inner failure t' hrun).trans hsame

/-- After it something may come that cannot fail. -/
theorem KeepsOnFailure.bind_pure (hx : x.KeepsOnFailure) (h : α → β) :
    (x >>= fun a => pure (h a)).KeepsOnFailure := by
  intro t failure t' hrun
  rcases runIn_bind_eq_error_iff.1 hrun with hrun | ⟨a, inner, -, hrun⟩
  · exact hx t failure t' hrun
  · cases hrun

end Action

/-! ## The commands -/

namespace Command

open DocIdent.Action

variable {t t' : FileTree} {input : String} {failure : Failure} {o : Outcome}

/-! ### Reports -/

/-- Keys are written out for what is loaded. -/
theorem run_encode (t : FileTree) (input : String) (json : Bool) :
    run t (.encode input json) =
      ((loadInputs t input).map fun r => ⟨encodeOutput r.2 json, 0⟩, t) :=
  runIn_reading_bind_pure (loadInputs · input)
    (fun r => (⟨encodeOutput r.2 json, 0⟩ : Outcome)) t

/-- So are enclosing elements. -/
theorem run_parents (t : FileTree) (input : String) :
    run t (.parents input) =
      ((loadInputs t input).map fun r => ⟨lines (r.2.flatMap parentLines), 0⟩, t) :=
  runIn_reading_bind_pure (loadInputs · input)
    (fun r => (⟨lines (r.2.flatMap parentLines), 0⟩ : Outcome)) t

/-- A lock is checked that is where the settings have it. -/
theorem run_check (t : FileTree) :
    run t .check = (Settings.load t >>= fun settings =>
      (Lock.load t settings.lockPath).map checkOutcome, t) := by
  rw [run, action, runIn_bind, runIn_reading]
  cases Settings.load t with
  | error failure => rfl
  | ok settings => exact runIn_reading_bind_pure (Lock.load · settings.lockPath) checkOutcome t

/-! ### What is left by a command that fails -/

/-- Commands that report only read. A lock is prepared by reading, and once it is written nothing
can fail any more. -/
theorem keepsOnFailure_action (c : Command) : c.action.KeepsOnFailure := by
  cases c with
  | encode input json =>
    exact ((onlyReads_reading _).bind fun ⟨_, _⟩ => onlyReads_pure _).keepsOnFailure
  | parents input =>
    exact ((onlyReads_reading _).bind fun ⟨_, _⟩ => onlyReads_pure _).keepsOnFailure
  | init input =>
    exact (onlyReads_reading _).bind_keepsOnFailure fun ⟨_, _⟩ =>
      (keepsOnFailure_changing _).bind_pure _
  | check =>
    exact ((onlyReads_reading _).bind fun _ =>
      (onlyReads_reading _).bind fun _ => onlyReads_pure _).keepsOnFailure

/-- **A command that fails leaves the tree as it was.** -/
theorem tree_eq_of_run_eq_error {c : Command} (h : run t c = (.error failure, t')) : t' = t :=
  keepsOnFailure_action c t failure t' h

/-! ### Making a lock -/

/-- A lock is made exactly if it is prepared and then written. -/
theorem run_init_eq_ok_iff_save :
    run t (.init input) = (.ok o, t') ↔
      ∃ path lock, prepareLock t input = .ok (path, lock) ∧ lock.save t path = .ok t' ∧
        o = ⟨"Wrote " ++ count lock.entries.length ++ " identifiers to " ++ path ++ "\n", 0⟩ := by
  rw [run, action, makeLock, runIn_bind_eq_ok_iff]
  simp only [runIn_reading, Prod.mk.injEq, Prod.exists, runIn_bind_eq_ok_iff,
    runIn_changing_eq_ok_iff, runIn_pure, Except.ok.injEq]
  constructor
  · rintro ⟨path, lock, _, ⟨hprepare, rfl⟩, -, _, hsave, rfl, rfl⟩
    exact ⟨path, lock, hprepare, hsave, rfl⟩
  · rintro ⟨path, lock, hprepare, hsave, rfl⟩
    exact ⟨path, lock, t, ⟨hprepare, rfl⟩, (), t', hsave, rfl, rfl⟩

/-- It is not made exactly if it is not prepared, or cannot be written then. -/
theorem run_init_eq_error_iff_save :
    run t (.init input) = (.error failure, t') ↔
      (prepareLock t input = .error failure ∨
        ∃ path lock, prepareLock t input = .ok (path, lock) ∧
          lock.save t path = .error failure) ∧ t' = t := by
  constructor
  · intro h
    obtain rfl := tree_eq_of_run_eq_error h
    refine ⟨?_, rfl⟩
    rw [run, action, makeLock, runIn_bind_eq_error_iff] at h
    rcases h with h | ⟨⟨path, lock⟩, inner, hread, h⟩
    · rw [runIn_reading] at h
      exact .inl (Prod.mk.inj h).1
    · rw [runIn_reading] at hread
      obtain ⟨hprepare, rfl⟩ := Prod.mk.inj hread
      rcases runIn_bind_eq_error_iff.1 h with h | ⟨_, _, -, ⟨⟩⟩
      exact .inr ⟨path, lock, hprepare, (runIn_changing_eq_error_iff.1 h).1⟩
  · rintro ⟨h, rfl⟩
    rw [run, action, makeLock, runIn_bind_eq_error_iff, runIn_reading]
    rcases h with h | ⟨path, lock, hprepare, h⟩
    · exact .inl (Prod.ext h rfl)
    · refine .inr ⟨(path, lock), t', Prod.ext hprepare rfl, ?_⟩
      exact runIn_bind_eq_error_iff.2 (.inl (runIn_changing_eq_error_iff.2 ⟨h, rfl⟩))

end Command

end DocIdent
