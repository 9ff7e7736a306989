import ForgeSync.Forge.Scripted
import ForgeSync.Proofs.Forge.Recording

/-!
# Calls to the forge that plays a script

Every call is answered with the next prepared outcome of its operation, which is then used up, and
recorded. So whatever a forge may answer during a run, there is a script that answers it.

Main statements: `records` and `runFrom_play`.
-/

namespace ForgeSync.Forge.Scripted

variable {α : Type} {queue : Focus Script (List (Except Failure α))}
  {fallback : Except Failure α} {call : Call} {s : State}

/-- The answer is the next outcome, or the fallback where there is none. -/
theorem runFrom_play (hset : queue.set (queue.get s.script) s.script = s.script) :
    (play queue fallback call).runFrom s =
      ((queue.get s.script).headD fallback,
        { script := queue.set (queue.get s.script).tail s.script, calls := s.calls ++ [call] }) := by
  rw [play, Act.runFrom_ofFunction]
  cases hqueue : queue.get s.script with
  | nil =>
      rw [hqueue] at hset
      simp [hset]
  | cons outcome rest => rfl

theorem calls_play : ((play queue fallback call).runFrom s).2.calls = s.calls ++ [call] := by
  rw [play, Act.runFrom_ofFunction]
  dsimp only
  split <;> rfl

theorem records (baseUrl : String) : (forge baseUrl).Records State.calls := by
  intro call s
  cases call <;> rw [Operation.performCall, Act.runFrom_map] <;> exact calls_play

end ForgeSync.Forge.Scripted
