import Firewall.Host.World
import Firewall.Proofs.Ipset.Staging

/-!
# Running actions on the world

An action runs on a world and gives an outcome and the world after it
(`Act.run`).  This module gives the run of each building block of actions,
so that the deploy operations can be followed step by step without unfolding
the monad: `Act.run_bind`, `Act.run_tryCatch`, and the runs of `log`,
`print` and `lift`.

**Hosts.**  On the in-memory kernel, a load records the script and either
replaces the kernel by the loaded one or uses up a refusal
(`Host.load_run_memory`); listing the set names changes nothing
(`Host.setNames_run_memory`).

**Invariant.**  `World.Sound`: the host is an in-memory kernel with valid
sets, and the supply of temporary words gives words of three lowercase
letters, as the generated ones are.  An action keeps it when it leaves every
sound world sound, whatever its outcome (`Act.KeepsSound`); binds and handlers
of such actions keep it too, and so do loads (`Host.keepsSound_load`).
-/

namespace Firewall

namespace Act

theorem run_bind {α β : Type} (x : Act α) (f : α → Act β) (w : World) :
    Act.run (x >>= f) w =
      match Act.run x w with
      | (.ok a, w') => Act.run (f a) w'
      | (.error e, w') => (.error e, w') := by
  simp only [Act.run, ExceptT.run, bind, ExceptT.bind, ExceptT.mk, StateT.run, StateT.bind,
    ExceptT.bindCont]
  rcases x w with ⟨_ | _, _⟩ <;> rfl

/-- A bind that succeeds ran both of its parts. -/
theorem run_bind_ok {α β : Type} {x : Act α} {f : α → Act β} {w w' : World} {b : β}
    (h : Act.run (x >>= f) w = (.ok b, w')) :
    ∃ a w1, Act.run x w = (.ok a, w1) ∧ Act.run (f a) w1 = (.ok b, w') := by
  rw [run_bind] at h
  rcases hx : Act.run x w with ⟨_ | a, w1⟩ <;> rw [hx] at h
  · cases h
  · exact ⟨a, w1, rfl, h⟩

@[simp] theorem run_pure {α : Type} (a : α) (w : World) : Act.run (pure a : Act α) w = (.ok a, w) :=
  rfl

@[simp] theorem run_throw {α : Type} (f : Fault) (w : World) :
    Act.run (throw f : Act α) w = (.error f, w) := rfl

@[simp] theorem run_get (w : World) : Act.run (get : Act World) w = (.ok w, w) := rfl

@[simp] theorem run_modify (f : World → World) (w : World) :
    Act.run (modify f : Act Unit) w = (.ok (), f w) := rfl

theorem run_tryCatch {α : Type} (x : Act α) (h : Fault → Act α) (w : World) :
    Act.run (tryCatch x h) w =
      match Act.run x w with
      | (.ok a, w') => (.ok a, w')
      | (.error e, w') => Act.run (h e) w' := by
  simp only [Act.run, ExceptT.run, tryCatch, tryCatchThe, MonadExceptOf.tryCatch, ExceptT.tryCatch,
    ExceptT.mk, StateT.run, bind, StateT.bind]
  rcases x w with ⟨_ | _, _⟩ <;> rfl

@[simp] theorem run_lift_ok {α : Type} (a : α) (w : World) :
    Act.run (lift (.ok a : Except Fault α)) w = (.ok a, w) := rfl

@[simp] theorem run_lift_error {α : Type} (f : Fault) (w : World) :
    Act.run (lift (.error f : Except Fault α)) w = (.error f, w) := rfl

@[simp] theorem run_log (level : Level) (msg : String) (w : World) :
    Act.run (log level msg) w = (.ok (), { w with logs := w.logs ++ [(level, msg)] }) := rfl

@[simp] theorem run_print (s : String) (w : World) :
    Act.run (print s) w = (.ok (), { w with printed := w.printed ++ s }) := rfl

@[simp] theorem run_editFiles (f : Files → Files) (w : World) :
    Act.run (editFiles f) w = (.ok (), { w with files := f w.files }) := rfl

/-- Reading a file leaves the world as it is. -/
@[simp] theorem run_readText (p : String) (w : World) :
    Act.run (readText p) w = (w.files.readText p, w) := by
  unfold readText
  rw [run_bind, run_get]
  show Act.run (lift (w.files.readText p)) w = _
  cases w.files.readText p <;> rfl

/-- Opening a file in a directory that exists writes it. -/
theorem run_createFile {p : String} {w : World} (h : w.files.isDir (Path.parent p) = true)
    (c : Content) : Act.run (createFile p c) w = (.ok (), { w with files := w.files.write p c }) := by
  unfold createFile Files.create
  rw [run_bind, run_get]
  simp only [h, if_true]
  rfl

/-- A conditional step followed by more acts as the step, or nothing, followed
by them. -/
theorem run_ite_bind {α : Type} (c : Bool) (x : Act Unit) (f : Unit → Act α) (w : World) :
    Act.run (if c = true then x >>= f else f ()) w =
      Act.run ((if c = true then x else pure ()) >>= f) w := by
  cases c <;> rfl

/-- A loop whose every round continues and changes the world by a function
of its element changes the world by all of them in turn. -/
theorem run_forIn {α : Type} (body : α → PUnit → Act (ForInStep PUnit)) (g : α → World → World)
    (hbody : ∀ x w, Act.run (body x PUnit.unit) w = (.ok (.yield PUnit.unit), g x w)) :
    ∀ (xs : List α) (w : World),
      Act.run (forIn xs PUnit.unit body) w = (.ok PUnit.unit, xs.foldl (fun w x => g x w) w)
  | [], _ => rfl
  | x :: xs, w => by
    rw [List.forIn_cons, run_bind, hbody x w]
    exact run_forIn body g hbody xs (g x w)

end Act

/-- Changes of the world that change its files by a function change them, one
after another, by the functions in turn. -/
theorem World.files_foldl {α : Type} (g : α → World → World) (f : α → Files → Files)
    (hg : ∀ x w, (g x w).files = f x w.files) :
    ∀ (xs : List α) (w : World),
      (xs.foldl (fun w x => g x w) w).files = xs.foldl (fun fs x => f x fs) w.files
  | [], _ => rfl
  | x :: xs, w => by
    rw [List.foldl_cons, List.foldl_cons, World.files_foldl g f hg xs (g x w), hg]

namespace Host

variable {c : Commands} {w : World} {k : Kernel}

/-- A load on the in-memory kernel records the script, then replaces the
kernel by the loaded one or uses up a refusal. -/
theorem load_run_memory (hk : w.host = .memory k) (kind : Ruleset.Kind) (lines : List String) :
    Act.run (load c kind lines) w =
      match k.load kind lines with
      | .ok k' => (.ok (), { w with calls := w.calls ++ [(kind.name, lines)], host := .memory k' })
      | .error f => (.error f,
          { w with calls := w.calls ++ [(kind.name, lines)], host := .memory (k.afterRefusal kind) }) := by
  unfold load
  rw [Act.run_bind, Act.run_get]
  simp only [hk]
  rw [Act.run_bind, Act.run_modify]
  cases k.load kind lines <;> rfl

/-- A load on the in-memory kernel that succeeds replaced the kernel by the
loaded one and kept the supply of words. -/
theorem load_ok (hk : w.host = .memory k) {kind : Ruleset.Kind} {lines : List String} {w' : World}
    (h : Act.run (load c kind lines) w = (.ok (), w')) :
    ∃ k', k.load kind lines = .ok k' ∧ w'.host = .memory k' ∧ w'.words = w.words := by
  rw [load_run_memory hk] at h
  cases hl : k.load kind lines with
  | error f =>
      rw [hl] at h
      cases h
  | ok k' =>
      rw [hl] at h
      cases h
      exact ⟨k', rfl, rfl, rfl⟩

/-- A load that the in-memory kernel accepts returns normally with the
loaded kernel. -/
theorem load_run_ok (c : Commands) (hk : w.host = .memory k) {kind : Ruleset.Kind} {lines : List String} {k' : Kernel}
    (h : k.load kind lines = .ok k') :
    ∃ w', Act.run (load c kind lines) w = (.ok (), w') ∧ w'.host = .memory k' := by
  rw [load_run_memory hk, h]
  exact ⟨_, rfl, rfl⟩

theorem setNames_run_memory (hk : w.host = .memory k) :
    Act.run (setNames c) w = (.ok k.setNames, w) := by
  unfold setNames
  rw [Act.run_bind, Act.run_get]
  simp only [hk]
  rfl

end Host

namespace World

/-- The host is an in-memory kernel with valid sets, and the supply of
temporary words gives words of three lowercase letters. -/
def Sound (w : World) : Prop := ∃ k, w.host = .memory k ∧ k.Valid ∧ w.words.Plain

end World

namespace Act

/-- An action that leaves every sound world sound, whatever its outcome. -/
def KeepsSound {α : Type} (a : Act α) : Prop := ∀ w : World, w.Sound → (Act.run a w).2.Sound

variable {α β : Type}

theorem KeepsSound.bind {x : Act α} {f : α → Act β} (hx : x.KeepsSound)
    (hf : ∀ a, (f a).KeepsSound) : (x >>= f).KeepsSound := by
  intro w hw
  rw [run_bind]
  have hx' := hx w hw
  rcases hr : Act.run x w with ⟨_ | a, w'⟩ <;> rw [hr] at hx'
  · exact hx'
  · exact hf a w' hx'

theorem KeepsSound.tryCatch {x : Act α} {h : Fault → Act α} (hx : x.KeepsSound)
    (hh : ∀ e, (h e).KeepsSound) : (tryCatch x h).KeepsSound := by
  intro w hw
  rw [run_tryCatch]
  have hx' := hx w hw
  rcases hr : Act.run x w with ⟨_ | a, w'⟩ <;> rw [hr] at hx'
  · exact hh _ w' hx'
  · exact hx'

theorem keepsSound_pure (a : α) : (pure a : Act α).KeepsSound := fun _ hw => hw

theorem keepsSound_throw (f : Fault) : (throw f : Act α).KeepsSound := fun _ hw => hw

theorem keepsSound_lift (x : Except Fault α) : (lift x).KeepsSound := by
  intro w hw
  cases x with
  | error f => rwa [run_lift_error]
  | ok a => rwa [run_lift_ok]

theorem keepsSound_log (level : Level) (msg : String) : (log level msg).KeepsSound :=
  fun _ ⟨k, hk, hv, hp⟩ => ⟨k, hk, hv, hp⟩

theorem keepsSound_print (s : String) : (print s).KeepsSound :=
  fun _ ⟨k, hk, hv, hp⟩ => ⟨k, hk, hv, hp⟩

/-- A loop whose body keeps the world sound keeps it sound. -/
theorem keepsSound_forIn {γ : Type} (f : α → γ → Act (ForInStep γ))
    (hf : ∀ x b, (f x b).KeepsSound) : ∀ (xs : List α) (b : γ), (forIn xs b f).KeepsSound
  | [], b => keepsSound_pure b
  | x :: xs, b => by
      rw [List.forIn_cons]
      refine (hf x b).bind fun r => ?_
      cases r with
      | done c => exact keepsSound_pure c
      | yield c => exact keepsSound_forIn f hf xs c

/-- The world an action that keeps soundness leaves is sound. -/
theorem KeepsSound.run {a : Act α} (ha : a.KeepsSound) {w w' : World} {r : Except Fault α}
    (hw : w.Sound) (h : Act.run a w = (r, w')) : w'.Sound := by
  have hs := ha w hw
  rw [h] at hs
  exact hs

end Act

/-- A load keeps the world sound, whatever its outcome. -/
theorem Host.keepsSound_load (c : Commands) (kind : Ruleset.Kind) (lines : List String) :
    (Host.load c kind lines).KeepsSound := by
  rintro w ⟨k, hk, hv, hp⟩
  rw [Host.load_run_memory hk]
  cases hl : k.load kind lines with
  | ok k' => exact ⟨k', rfl, Kernel.load_valid hv hl, hp⟩
  | error f =>
      refine ⟨k.afterRefusal kind, rfl, ?_, hp⟩
      unfold Kernel.Valid
      rw [Kernel.afterRefusal_sets]
      exact hv

end Firewall
