/-
# CobolAtlas.Proofs.Host -- runs that succeed

`x.Gives fs a fs'` says that a run succeeds with a value and what files it leaves.  A run in steps succeeds where
each step does (`gives_bind`), also over a list (`gives_mapM`); the steps that touch files leave a series of writes.
-/
import CobolAtlas.Host
import CobolAtlas.Proofs.FileSystem.Writes

namespace CobolAtlas

set_option autoImplicit false

/-- No variables, compilers or grammars. -/
def Host.bare : Host where
  environment? _ := none
  execute? _ _ := none
  openGrammar? _ _ _ := none

namespace Run

variable {α β : Type} {fs fs' fs'' : FileSystem}

/-- The run succeeds with the value `a` and leaves the files `fs'`. -/
def Gives (x : Run α) (fs : FileSystem) (a : α) (fs' : FileSystem) : Prop := x.run.run fs = (.ok a, fs')

/-! ## Steps -/

theorem gives_pure {a b : α} : Gives (pure a) fs b fs' ↔ a = b ∧ fs = fs' := by
  show ((.ok a, fs) : Except Failure α × FileSystem) = (.ok b, fs') ↔ _
  rw [Prod.mk.injEq, Except.ok.injEq]

theorem gives_bind {x : Run α} {f : α → Run β} {b : β} :
    Gives (x >>= f) fs b fs'' ↔ ∃ a fs', x.Gives fs a fs' ∧ (f a).Gives fs' b fs'' := by
  have bound : (x >>= f).run.run fs = match x.run.run fs with
      | (.ok a, fs') => (f a).run.run fs'
      | (.error failure, fs') => (.error failure, fs') := by
    show (match x.run.run fs with | (a, fs') => ExceptT.bindCont f a fs') = _
    rcases x.run.run fs with ⟨_ | a, fs'⟩ <;> rfl
  simp only [Gives, bound]
  rcases x.run.run fs with ⟨failure | a, fs'⟩
  · exact ⟨fun same => by (cases same), fun ⟨_, _, same, _⟩ => by (cases same)⟩
  · refine ⟨fun gives => ⟨a, fs', rfl, gives⟩, fun ⟨_, _, same, gives⟩ => ?_⟩
    cases same
    exact gives

theorem gives_unique {x : Run α} {a b : α} (gives : x.Gives fs a fs') (gives' : x.Gives fs b fs'') :
    a = b ∧ fs' = fs'' := by
  obtain ⟨same, left⟩ := Prod.mk.inj (gives.symm.trans gives')
  exact ⟨Except.ok.inj same, left⟩

theorem gives_map {x : Run α} {f : α → β} {b : β} : Gives (f <$> x) fs b fs' ↔ ∃ a, x.Gives fs a fs' ∧ f a = b := by
  rw [← bind_pure_comp, gives_bind]
  simp only [gives_pure]
  constructor
  · rintro ⟨a, _, gives, same, rfl⟩
    exact ⟨a, gives, same⟩
  · rintro ⟨a, gives, same⟩
    exact ⟨a, fs', gives, same, rfl⟩

theorem gives_files {files : FileSystem} : Gives Run.files fs files fs' ↔ fs = files ∧ fs = fs' := by
  show ((.ok fs, fs) : Except Failure FileSystem × FileSystem) = (.ok files, fs') ↔ _
  rw [Prod.mk.injEq, Except.ok.injEq]

theorem gives_set {u : PUnit} : Gives (set fs'') fs u fs' ↔ fs'' = fs' := by
  show ((.ok ⟨⟩, fs'') : Except Failure PUnit × FileSystem) = (.ok u, fs') ↔ _
  rw [Prod.mk.injEq]
  exact and_iff_right rfl

theorem not_gives_fail {failure : Failure} {a : α} : ¬ Gives (fail failure) fs a fs' := by
  intro gives
  have results : ((.error failure, fs) : Except Failure α × FileSystem) = (.ok a, fs') := gives
  cases results

theorem gives_require {o : Option α} {failure : Failure} {a : α} :
    Gives (require o failure) fs a fs' ↔ o = some a ∧ fs = fs' := by
  cases o with
  | none => exact ⟨fun gives => absurd gives not_gives_fail, fun same => by cases same.1⟩
  | some b => rw [require, gives_pure, Option.some.injEq]

theorem gives_liftExcept {x : Except Failure α} {a : α} :
    Gives (liftExcept x) fs a fs' ↔ x = .ok a ∧ fs = fs' := by
  cases x with
  | error failure => exact ⟨fun gives => absurd gives not_gives_fail, fun same => by cases same.1⟩
  | ok b =>
    show Gives (pure b) fs a fs' ↔ _
    rw [gives_pure, Except.ok.injEq]

/-- What a run with a way out gives, the run gives or the way out. -/
theorem gives_of_tryCatch {x : Run α} {out : Failure → Run α} {a : α} (gives : Gives (tryCatch x out) fs a fs') :
    x.Gives fs a fs' ∨ ∃ failure fs'', (out failure).Gives fs'' a fs' := by
  have caught : (tryCatch x out).run.run fs = match x.run.run fs with
      | (.ok a, fs') => (.ok a, fs')
      | (.error failure, fs') => (out failure).run.run fs' := by
    simp only [tryCatch, tryCatchThe, MonadExceptOf.tryCatch, ExceptT.tryCatch, ExceptT.run_mk, StateT.run_bind]
    change (x.run.run fs >>= _ : Id (Except Failure α × FileSystem)) = _
    rcases x.run.run fs with ⟨_ | a, fs'⟩ <;> rfl
  simp only [Gives, caught] at gives ⊢
  cases result : x.run.run fs with
  | mk value left =>
    rw [result] at gives
    cases value with
    | error failure => exact .inr ⟨failure, left, gives⟩
    | ok b => exact .inl gives

/-- A run over a list succeeds where it succeeds for each element, one after the other. -/
theorem gives_mapM_cons {f : α → Run β} {a : α} {as : List α} {bs : List β} :
    Gives ((a :: as).mapM f) fs bs fs'' ↔
      ∃ b fs' rest, (f a).Gives fs b fs' ∧ Gives (as.mapM f) fs' rest fs'' ∧ bs = b :: rest := by
  simp only [List.mapM_cons, gives_bind, gives_pure]
  constructor
  · rintro ⟨b, fs', first, rest, _, others, rfl, rfl⟩
    exact ⟨b, fs', rest, first, others, rfl⟩
  · rintro ⟨b, fs', rest, first, others, rfl⟩
    exact ⟨b, fs', first, rest, fs'', others, rfl, rfl⟩

/-! ## What steps leave -/

theorem wrote_of_makeDirectories {p : Path} {failure : Failure} {u : Unit}
    (ran : Gives (makeDirectories p failure) fs u fs') : FileSystem.Wrote [] fs fs' := by
  simp only [makeDirectories, gives_bind, gives_files, gives_set] at ran
  obtain ⟨_, _, ⟨rfl, rfl⟩, _, _, rfl, ran⟩ := ran
  have same : fs' = (fs.makeDirectories p).2 := by
    split at ran
    · exact (gives_pure.1 ran).2.symm
    · exact absurd ran not_gives_fail
  rw [same]
  exact FileSystem.makeDirectories_wrote fs p

theorem wrote_of_makeParent {p : Path} {u : Unit} (ran : Gives (makeParent p) fs u fs') :
    FileSystem.Wrote [] fs fs' := by
  rw [makeParent] at ran
  split at ran
  · rw [← (gives_pure.1 ran).2]
    exact .refl fs
  · exact wrote_of_makeDirectories ran

theorem wrote_of_write {p : Path} {content : Bytes} {u : Unit} (home : fs.AllDirectories fs.current)
    (ran : Gives (write p content) fs u fs') : FileSystem.Wrote [(p, content)] fs fs' := by
  simp only [write, gives_bind, gives_files, gives_require, gives_set] at ran
  obtain ⟨_, _, ⟨rfl, rfl⟩, _, _, ⟨written, -⟩, rfl⟩ := ran
  exact FileSystem.write?_wrote home written

end Run

end CobolAtlas
