import ForgeSync.Proofs.Forge.Footprint

/-!
# Forges that record their calls

A forge may keep a log of the calls that it was asked, whatever it answered. Of some actions the log
tells in advance which calls of a kind they make: the answers decide how these end, but not whether
they are made. Such actions say what they do, and what they say adds up along a sequence.

Main statements: `Says.bind` and `says_mapM`.
-/

namespace ForgeSync

variable {σ α β : Type}

open Forge (Call)

/-- Every call is recorded, once and at the end of the log, however it is answered. -/
def Forge.Records (forge : Forge σ) (log : σ → List Call) : Prop :=
  ∀ call s, log ((Operation.performCall forge call).runFrom s).2 = log s ++ [call]

variable {log : σ → List Call} {kind : Call → Bool} {calls more : List Call} {s t u : σ}

/-- From one state to the next the log has grown, and those of its new calls that are of a kind are
`calls`. -/
def Grows (log : σ → List Call) (kind : Call → Bool) (calls : List Call) (s t : σ) : Prop :=
  ∃ new, log t = log s ++ new ∧ new.filter kind = calls

theorem Grows.refl (log : σ → List Call) (kind : Call → Bool) (s : σ) : Grows log kind [] s s :=
  ⟨[], by simp, rfl⟩

theorem Grows.trans (h : Grows log kind calls s t) (h' : Grows log kind more t u) :
    Grows log kind (calls ++ more) s u := by
  obtain ⟨new, hnew, rfl⟩ := h
  obtain ⟨later, hlater, rfl⟩ := h'
  exact ⟨new ++ later, by rw [hlater, hnew, List.append_assoc], List.filter_append ..⟩

theorem Grows.chains (log : σ → List Call) (kind : Call → Bool) :
    Act.Chains (Grows log kind []) :=
  ⟨Grows.refl log kind, fun h h' => h.trans h'⟩

/-- What is left of the log tells of a call of the kind whether it was made. -/
theorem Grows.exists_mem_iff (h : Grows log kind calls s t) :
    ∃ new, log t = log s ++ new ∧ ∀ call, kind call = true → (call ∈ new ↔ call ∈ calls) := by
  obtain ⟨new, hnew, rfl⟩ := h
  exact ⟨new, hnew, fun call hkind => by simp [hkind]⟩

namespace Forge

variable {forge : Forge σ}

theorem Records.moves (h : forge.Records log) (kind : Call → Bool) (call : Call) :
    Act.Moves (Grows log kind ([call].filter kind)) (Operation.performCall forge call) :=
  fun s => ⟨[call], h call s, rfl⟩

/-- A call is recorded whatever is made of its answer. -/
theorem Records.log_runFrom (h : forge.Records log) (call : Call) {f : α → Datum} {act : Act σ α}
    (hcall : Operation.performCall forge call = f <$> act) (s : σ) :
    log (act.runFrom s).2 = log s ++ [call] := by
  rw [← h call s, hcall, Act.runFrom_map]

end Forge

namespace Act

variable {act : Act σ α}

/-- The action cannot fail, and of a kind it makes these calls. -/
def Says (log : σ → List Call) (kind : Call → Bool) (calls : List Call) (act : Act σ α) : Prop :=
  ∀ s, act.Ends s (fun _ t => Grows log kind calls s t) fun _ _ => False

theorem says_pure (log : σ → List Call) (kind : Call → Bool) (a : α) :
    Says log kind [] (pure a : Act σ α) :=
  fun s => .refl log kind s

theorem Says.bind {f : α → Act σ β} (h : Says log kind calls act)
    (hf : ∀ a, Says log kind more (f a)) : Says log kind (calls ++ more) (act >>= f) := by
  intro s
  refine (h s).bind fun a t ht => ?_
  exact (hf a t).mono (fun _ _ hu => ht.trans hu) fun _ _ => id

/-- An attempt cannot fail, and it makes its call either way. -/
theorem says_attempt (h : Moves (Grows log kind calls) act) : Says log kind calls act.attempt :=
  fun s => ends_attempt.2 (h.ends s)

theorem says_mapM {f : β → Act σ α} {callsOf : β → List Call} {items : List β}
    (h : ∀ item ∈ items, Says log kind (callsOf item) (f item)) :
    Says log kind (items.flatMap callsOf) (items.mapM f) := by
  induction items with
  | nil => exact says_pure log kind []
  | cons item rest ih =>
      rw [List.mapM_cons, List.flatMap_cons]
      refine (h item List.mem_cons_self).bind fun result => ?_
      rw [← List.append_nil (rest.flatMap callsOf)]
      exact (ih fun i hi => h i (List.mem_cons_of_mem item hi)).bind fun _ => says_pure log kind _

end Act

end ForgeSync
