import ForgeSync.Forge.Basic

/-!
# Outcome calculus for actions

Two ways to speak of a run. `Ends` is a condition on the outcome and the state after it, for one
state before; it is transported through sequencing, so that a composite action is taken apart one
call at a time. `Moves` relates the states before and after every run, whatever the outcome; for a
relation that holds along chains of changes it needs to be shown of single calls only.
-/

namespace ForgeSync.Act

variable {σ ω α β γ : Type}

/-! ## Runs -/

theorem runFrom_bind (act : Act σ α) (f : α → Act σ β) (s : σ) :
    (act >>= f).runFrom s =
      match act.runFrom s with
      | (.ok a, after) => (f a).runFrom after
      | (.error failure, after) => (.error failure, after) := by
  simp only [runFrom, bind, ExceptT.bind, ExceptT.mk, ExceptT.run, StateT.bind, StateT.run]
  change (match act s with | (a, after) => ExceptT.bindCont f a after) = _
  rcases act s with ⟨_ | _, after⟩ <;> rfl

theorem runFrom_bind_of_ok {act : Act σ α} {f : α → Act σ β} {s t : σ} {a : α}
    (h : act.runFrom s = (.ok a, t)) : (act >>= f).runFrom s = (f a).runFrom t := by
  rw [runFrom_bind, h]

theorem runFrom_bind_of_error {act : Act σ α} {f : α → Act σ β} {s t : σ} {failure : Failure}
    (h : act.runFrom s = (.error failure, t)) : (act >>= f).runFrom s = (.error failure, t) := by
  rw [runFrom_bind, h]

@[simp] theorem runFrom_get (s : σ) : (get : Act σ σ).runFrom s = (.ok s, s) := rfl

@[simp] theorem runFrom_modify (f : σ → σ) (s : σ) :
    (modify f : Act σ Unit).runFrom s = (.ok (), f s) := rfl

theorem runFrom_map (f : α → β) (act : Act σ α) (s : σ) :
    (f <$> act).runFrom s = ((act.runFrom s).1.map f, (act.runFrom s).2) := by
  rw [← bind_pure_comp, runFrom_bind]
  rcases act.runFrom s with ⟨_ | _, after⟩ <;> rfl

theorem runFrom_within (focus : Focus ω σ) (act : Act σ α) (w : ω) :
    (act.within focus).runFrom w =
      ((act.runFrom (focus.get w)).1, focus.set (act.runFrom (focus.get w)).2 w) := rfl

/-! ## Conditions on one run -/

/-- From `s` the action ends with a value and a state as `onOk` says, or with a failure and a state
as `onError` says. -/
def Ends (act : Act σ α) (s : σ) (onOk : α → σ → Prop) (onError : Failure → σ → Prop) : Prop :=
  match act.runFrom s with
  | (.ok a, after) => onOk a after
  | (.error failure, after) => onError failure after

variable {act : Act σ α} {s : σ} {onOk : α → σ → Prop} {onError : Failure → σ → Prop}

theorem ends_iff :
    act.Ends s onOk onError ↔
      (∀ a after, act.runFrom s = (.ok a, after) → onOk a after) ∧
        (∀ failure after, act.runFrom s = (.error failure, after) → onError failure after) := by
  unfold Ends
  rcases h : act.runFrom s with ⟨_ | _, after⟩ <;> simp

theorem Ends.of_ok {a : α} {after : σ} (h : act.Ends s onOk onError)
    (hrun : act.runFrom s = (.ok a, after)) : onOk a after :=
  (ends_iff.1 h).1 a after hrun

theorem Ends.of_error {failure : Failure} {after : σ} (h : act.Ends s onOk onError)
    (hrun : act.runFrom s = (.error failure, after)) : onError failure after :=
  (ends_iff.1 h).2 failure after hrun

theorem ends_of_ok {a : α} {after : σ} (hrun : act.runFrom s = (.ok a, after)) :
    act.Ends s onOk onError ↔ onOk a after := by
  simp [Ends, hrun]

theorem ends_of_error {failure : Failure} {after : σ}
    (hrun : act.runFrom s = (.error failure, after)) :
    act.Ends s onOk onError ↔ onError failure after := by
  simp [Ends, hrun]

/-- A condition on the state alone, however the action ends. -/
theorem ends_iff_runFrom {p : σ → Prop} :
    act.Ends s (fun _ t => p t) (fun _ t => p t) ↔ p (act.runFrom s).2 := by
  unfold Ends
  rcases act.runFrom s with ⟨_ | _, after⟩ <;> rfl

theorem Ends.mono {onOk' : α → σ → Prop} {onError' : Failure → σ → Prop}
    (h : act.Ends s onOk onError) (hok : ∀ a after, onOk a after → onOk' a after)
    (herror : ∀ failure after, onError failure after → onError' failure after) :
    act.Ends s onOk' onError' := by
  rw [ends_iff] at h ⊢
  exact ⟨fun a after hrun => hok a after (h.1 a after hrun),
    fun failure after hrun => herror failure after (h.2 failure after hrun)⟩

theorem Ends.and {onOk' : α → σ → Prop} {onError' : Failure → σ → Prop}
    (h : act.Ends s onOk onError) (h' : act.Ends s onOk' onError') :
    act.Ends s (fun a after => onOk a after ∧ onOk' a after)
      (fun failure after => onError failure after ∧ onError' failure after) := by
  rw [ends_iff] at h h' ⊢
  exact ⟨fun a after hrun => ⟨h.1 a after hrun, h'.1 a after hrun⟩,
    fun failure after hrun => ⟨h.2 failure after hrun, h'.2 failure after hrun⟩⟩

/-- An action that cannot fail from a state has a value there. -/
theorem Ends.exists_ok (h : act.Ends s onOk fun _ _ => False) :
    ∃ a after, act.runFrom s = (.ok a, after) ∧ onOk a after := by
  rcases hrun : act.runFrom s with ⟨failure | a, after⟩
  · exact (h.of_error hrun).elim
  · exact ⟨a, after, rfl, h.of_ok hrun⟩

@[simp] theorem ends_pure (a : α) : (pure a : Act σ α).Ends s onOk onError ↔ onOk a s :=
  Iff.rfl

@[simp] theorem ends_throw (failure : Failure) :
    (throw failure : Act σ α).Ends s onOk onError ↔ onError failure s :=
  Iff.rfl

@[simp] theorem ends_get {onOk : σ → σ → Prop} :
    (get : Act σ σ).Ends s onOk onError ↔ onOk s s :=
  Iff.rfl

@[simp] theorem ends_modify (f : σ → σ) {onOk : Unit → σ → Prop} :
    (modify f : Act σ Unit).Ends s onOk onError ↔ onOk () (f s) :=
  Iff.rfl

@[simp] theorem ends_ofExcept_ok (a : α) :
    (ofExcept (.ok a) : Act σ α).Ends s onOk onError ↔ onOk a s :=
  Iff.rfl

@[simp] theorem ends_ofExcept_error (failure : Failure) :
    (ofExcept (.error failure) : Act σ α).Ends s onOk onError ↔ onError failure s :=
  Iff.rfl

theorem ends_bind {f : α → Act σ β} {onOk : β → σ → Prop} :
    (act >>= f).Ends s onOk onError ↔
      act.Ends s (fun a after => (f a).Ends after onOk onError) onError := by
  unfold Ends
  rw [runFrom_bind]
  rcases act.runFrom s with ⟨_ | _, after⟩ <;> rfl

theorem Ends.bind {f : α → Act σ β} {mid : α → σ → Prop} {onOk : β → σ → Prop}
    (h : act.Ends s mid onError)
    (hf : ∀ a after, mid a after → (f a).Ends after onOk onError) :
    (act >>= f).Ends s onOk onError :=
  ends_bind.2 (h.mono hf fun _ _ herror => herror)

theorem ends_map {f : α → β} {onOk : β → σ → Prop} :
    (f <$> act).Ends s onOk onError ↔ act.Ends s (fun a after => onOk (f a) after) onError := by
  unfold Ends
  rw [runFrom_map]
  rcases act.runFrom s with ⟨_ | _, after⟩ <;> rfl

theorem ends_attempt {onOk : Except Failure α → σ → Prop} :
    act.attempt.Ends s onOk onError ↔
      act.Ends s (fun a after => onOk (.ok a) after)
        (fun failure after => onOk (.error failure) after) := by
  unfold Ends
  rw [runFrom_attempt]
  rcases act.runFrom s with ⟨_ | _, after⟩ <;> rfl

theorem ends_within {focus : Focus ω σ} {w : ω} {onOk : α → ω → Prop}
    {onError : Failure → ω → Prop} :
    (act.within focus).Ends w onOk onError ↔
      act.Ends (focus.get w) (fun a after => onOk a (focus.set after w))
        (fun failure after => onError failure (focus.set after w)) := by
  unfold Ends
  rw [runFrom_within]
  rcases act.runFrom (focus.get w) with ⟨_ | _, after⟩ <;> rfl

/-- A loop keeps an invariant that speaks of the items done, their results and the state. -/
theorem ends_mapM {f : β → Act σ γ} {items : List β}
    (invariant : List β → List γ → σ → Prop)
    (hstep : ∀ done item rest results now, items = done ++ item :: rest →
      invariant done results now →
      (f item).Ends now (fun result after => invariant (done ++ [item]) (results ++ [result]) after)
        onError)
    (hstart : invariant [] [] s) :
    (items.mapM f).Ends s (fun results after => invariant items results after) onError := by
  suffices h : ∀ rest done results now, items = done ++ rest → invariant done results now →
      (rest.mapM f).Ends now (fun more after => invariant items (results ++ more) after) onError by
    simpa using h items [] [] s rfl hstart
  intro rest
  induction rest with
  | nil =>
      intro done results now hitems hinv
      simpa [hitems] using hinv
  | cons item rest ih =>
      intro done results now hitems hinv
      rw [List.mapM_cons]
      apply (hstep done item rest results now hitems hinv).bind
      intro result after hafter
      rw [ends_bind]
      refine (ih (done ++ [item]) (results ++ [result]) after (by simp [hitems]) hafter).mono
        (fun more final hfinal => ?_) fun _ _ herror => herror
      simpa using hfinal

/-! ## Relations along all runs -/

/-- Relations that hold along any chain of changes. -/
structure Chains (R : σ → σ → Prop) : Prop where
  refl : ∀ s, R s s
  trans : ∀ {a b c}, R a b → R b c → R a c

/-- Every run relates the state before it to the state after it. -/
def Moves (R : σ → σ → Prop) (act : Act σ α) : Prop :=
  ∀ s, R s (act.runFrom s).2

variable {R : σ → σ → Prop}

theorem Moves.ends (h : Moves R act) (s : σ) :
    act.Ends s (fun _ after => R s after) (fun _ after => R s after) :=
  ends_iff.2 ⟨fun a after hrun => by simpa [hrun] using h s,
    fun failure after hrun => by simpa [hrun] using h s⟩

namespace Chains

variable (hR : Chains R)

include hR

theorem moves_pure (a : α) : Moves R (pure a : Act σ α) := fun s => hR.refl s

theorem moves_throw (failure : Failure) : Moves R (throw failure : Act σ α) :=
  fun s => hR.refl s

theorem moves_get : Moves R (get : Act σ σ) := fun s => hR.refl s

theorem moves_ofExcept (outcome : Except Failure α) : Moves R (ofExcept outcome : Act σ α) :=
  fun s => hR.refl s

/-- What comes behind an action moves on from where that ended. -/
theorem behind {f : α → Act σ β} (hf : ∀ a, Moves R (f a)) (s : σ) :
    R (act.runFrom s).2 ((act >>= f).runFrom s).2 := by
  rw [Act.runFrom_bind]
  rcases act.runFrom s with ⟨_ | a, after⟩
  · exact hR.refl after
  · exact hf a after

/-- From one state on: the first action has to be looked at there only. -/
theorem runFrom_bind {f : α → Act σ β} {s : σ} (h : R s (act.runFrom s).2)
    (hf : ∀ a, Moves R (f a)) : R s ((act >>= f).runFrom s).2 :=
  hR.trans h (hR.behind hf s)

theorem moves_bind {f : α → Act σ β} (h : Moves R act) (hf : ∀ a, Moves R (f a)) :
    Moves R (act >>= f) :=
  fun s => hR.runFrom_bind (h s) hf

theorem moves_mapM {f : β → Act σ γ} {items : List β} (h : ∀ item ∈ items, Moves R (f item)) :
    Moves R (items.mapM f) := by
  induction items with
  | nil => exact hR.moves_pure []
  | cons item rest ih =>
      rw [List.mapM_cons]
      apply hR.moves_bind (h item List.mem_cons_self)
      intro result
      exact hR.moves_bind (ih fun i hi => h i (List.mem_cons_of_mem item hi))
        fun _ => hR.moves_pure _

end Chains

theorem moves_map {f : α → β} : Moves R (f <$> act) ↔ Moves R act := by
  simp only [Moves, runFrom_map]

theorem moves_get_bind {f : σ → Act σ β} :
    Moves R (get >>= f) ↔ ∀ s, R s ((f s).runFrom s).2 :=
  Iff.rfl

/-- Two actions in a row, each of which moves the state in its own way. -/
theorem Moves.bind_into {S T : σ → σ → Prop} {f : α → Act σ β} (h : Moves R act)
    (hf : ∀ a, Moves S (f a)) (hstop : ∀ {a b}, R a b → T a b)
    (hgo : ∀ {a b c}, R a b → S b c → T a c) : Moves T (act >>= f) := by
  intro s
  have hact := h s
  rw [runFrom_bind]
  rcases hrun : act.runFrom s with ⟨_ | a, after⟩ <;> rw [hrun] at hact
  · exact hstop hact
  · exact hgo hact (hf a after)

theorem moves_attempt : Moves R act.attempt ↔ Moves R act := Iff.rfl

end ForgeSync.Act
