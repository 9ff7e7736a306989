import ForgeSync.Forge.Memory
import ForgeSync.Proofs.Forge.Footprint

/-!
# The log of the forge in memory

Every call is recorded, once and at the end of the log, however it is answered. So what an
operation adds to the log stays within its footprint.
-/

namespace ForgeSync.Forge.Memory

/-- The log has grown, by calls of a set only. -/
def Logs (allowed : Call → Prop) (before after : State) : Prop :=
  ∃ new, after.calls = before.calls ++ new ∧ ∀ call ∈ new, allowed call

theorem Logs.chains (allowed : Call → Prop) : Act.Chains (Logs allowed) where
  refl _ := ⟨[], by simp, by simp⟩
  trans := by
    intro a b c hfirst hsecond
    obtain ⟨new, hnew, hallowed⟩ := hfirst
    obtain ⟨more, hmore, hallowed'⟩ := hsecond
    refine ⟨new ++ more, by rw [hmore, hnew, List.append_assoc], fun call hcall => ?_⟩
    exact (List.mem_append.1 hcall).elim (hallowed call) (hallowed' call)

theorem Logs.mono {allowed wider : Call → Prop} {before after : State}
    (h : Logs allowed before after) (hsub : ∀ call, allowed call → wider call) :
    Logs wider before after := by
  obtain ⟨new, hnew, hallowed⟩ := h
  exact ⟨new, hnew, fun call hcall => hsub call (hallowed call hcall)⟩

theorem calls_performCall (site : Site) (call : Call) (s : State) :
    ((Operation.performCall (forge site) call).runFrom s).2.calls = s.calls ++ [call] := by
  cases call <;> simp only [Operation.performCall, Act.runFrom_map] <;> apply calls_answer <;>
    intro s'
  case createProject => unfold createProject; dsimp only; split <;> rfl
  case deleteProject => unfold deleteProject; split <;> rfl
  case addDeployKey => exact calls_onProject _ _ _
  case createAccessToken => exact calls_onProject _ _ _
  all_goals first | rfl | exact calls_onProject _ _ _

theorem respects_logs (site : Site) (allowed : Call → Prop) :
    (forge site).Respects allowed (Logs allowed) := by
  intro call hcall s
  exact ⟨[call], calls_performCall site call s, by simpa using hcall⟩

end ForgeSync.Forge.Memory
