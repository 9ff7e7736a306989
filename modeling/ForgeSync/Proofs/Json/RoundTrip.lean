import ForgeSync.Json.Reader
import ForgeSync.Proofs.Json.Scanning

/-!
# Printed JSON is read back

The tokens of a value lead the machine that builds values from any place where a value may start
to the place behind it, with the value in the innermost open frame. So data that JSON text denotes
is read back from its text in either layout.

Main statements: `read?_compact` and `read?_pretty`.
-/

namespace ForgeSync.Json

namespace Build

variable {b n : Build} {wait : Wait} {frames : List Frame} {t : Token} {ts rest : List Token}

theorem foldlM_step_cons (h : step b t = some n) :
    (t :: rest).foldlM step b = rest.foldlM step n := by
  rw [List.foldlM_cons, h]
  rfl

/-- Where a value may start. -/
def TakesValue (wait : Wait) : Prop :=
  wait = .value ∨ wait = .itemOrEnd

theorem step_eq_start (hwait : TakesValue wait) (h : start frames t = some n) :
    step ⟨wait, frames⟩ t = some n := by
  obtain rfl | rfl := hwait
  · exact h
  · cases t with
    | closeList => cases h
    | _ => exact h

/-- Tokens that put a value into the innermost frame. -/
def Makes (ts : List Token) (d : Datum) : Prop :=
  ∀ wait frames rest, TakesValue wait →
    (ts ++ rest).foldlM step ⟨wait, frames⟩ = rest.foldlM step (complete frames d)

theorem makes_of_start {d : Datum} (h : ∀ frames, start frames t = some (complete frames d)) :
    Makes [t] d :=
  fun _ frames _ hwait => foldlM_step_cons (step_eq_start hwait (h frames))

theorem commaSeparated_cons_cons (piece other : List Token) (pieces : List (List Token)) :
    commaSeparated (piece :: other :: pieces) =
      piece ++ .comma :: commaSeparated (other :: pieces) := by
  rw [commaSeparated, List.intercalate_cons_cons, List.append_assoc, List.singleton_append,
    commaSeparated]

/-- The items of an open list, up to the mark that closes it. -/
theorem foldlM_items {items : List Datum} (h : ∀ d ∈ items, Makes (tokens d) d) (hne : items ≠ [])
    (hwait : TakesValue wait) (done : List Datum) :
    (commaSeparated (items.map tokens) ++ .closeList :: rest).foldlM step
        ⟨wait, .items done :: frames⟩ =
      rest.foldlM step (complete frames (.list (done.reverse ++ items))) := by
  induction items generalizing wait done with
  | nil => exact absurd rfl hne
  | cons d items ih =>
      have hd := h d List.mem_cons_self
      cases items with
      | nil =>
          rw [List.map_singleton, commaSeparated, List.intercalate_singleton, hd _ _ _ hwait]
          exact foldlM_step_cons (by simp [complete, step])
      | cons e items =>
          have hitems := ih (fun f hf => h f (List.mem_cons_of_mem d hf)) (List.cons_ne_nil _ _)
            (.inl rfl) (d :: done)
          rw [List.map_cons] at hitems
          rw [List.map_cons, List.map_cons, commaSeparated_cons_cons, List.append_assoc,
            hd _ _ _ hwait, List.cons_append, complete,
            foldlM_step_cons (n := ⟨.value, .items (d :: done) :: frames⟩) rfl,
            hitems, List.reverse_cons, List.append_assoc, List.singleton_append]

/-- Where the key of a member is read next. -/
def TakesKey (wait : Wait) (done : List (String × Datum)) : Prop :=
  wait = .key done ∨ wait = .keyOrEnd done

/-- The members of an open map, up to the mark that closes it. -/
theorem foldlM_members {members : List (String × Datum)}
    (h : ∀ m ∈ members, Makes (tokens m.2) m.2) (hne : members ≠ [])
    {done : List (String × Datum)} (hwait : TakesKey wait done) :
    (commaSeparated (members.map fun m => .text m.1 :: .colon :: tokens m.2) ++
        .closeMap :: rest).foldlM step ⟨wait, frames⟩ =
      rest.foldlM step (complete frames (.map (done.reverse ++ members))) := by
  induction members generalizing wait done with
  | nil => exact absurd rfl hne
  | cons m members ih =>
      have hm := h m List.mem_cons_self
      have hkey : step ⟨wait, frames⟩ (.text m.1) = some ⟨.colon done m.1, frames⟩ := by
        obtain rfl | rfl := hwait
        all_goals rfl
      cases members with
      | nil =>
          rw [List.map_singleton, commaSeparated, List.intercalate_singleton, List.cons_append,
            foldlM_step_cons hkey, List.cons_append,
            foldlM_step_cons (n := ⟨.value, .members done m.1 :: frames⟩) rfl,
            hm _ _ _ (.inl rfl)]
          exact foldlM_step_cons (by simp [complete, step])
      | cons n members =>
          have hmembers := ih (fun o ho => h o (List.mem_cons_of_mem m ho)) (List.cons_ne_nil _ _)
            (.inl (Eq.refl (Wait.key (m :: done))))
          rw [List.map_cons] at hmembers
          rw [List.map_cons, List.map_cons, commaSeparated_cons_cons, List.append_assoc,
            List.cons_append, foldlM_step_cons hkey, List.cons_append,
            foldlM_step_cons (n := ⟨.value, .members done m.1 :: frames⟩) rfl,
            hm _ _ _ (.inl rfl), List.cons_append, complete,
            foldlM_step_cons (n := ⟨.key (m :: done), frames⟩) rfl,
            hmembers, List.reverse_cons, List.append_assoc, List.singleton_append]

theorem makes_tokens {d : Datum} (h : Denotable d) : Makes (tokens d) d := by
  induction h with
  | null => exact makes_of_start fun _ => rfl
  | bool b => exact makes_of_start fun _ => rfl
  | int hlow hhigh => exact makes_of_start fun _ => rfl
  | text s => exact makes_of_start fun _ => rfl
  | @list items h ih =>
      intro wait frames rest hwait
      rw [tokens_list, List.cons_append, List.cons_append,
        foldlM_step_cons (step_eq_start hwait (n := ⟨.itemOrEnd, .items [] :: frames⟩) rfl),
        List.append_assoc]
      cases items with
      | nil => exact foldlM_step_cons rfl
      | cons d items => exact foldlM_items ih (List.cons_ne_nil _ _) (.inr rfl) []
  | @map members h ih =>
      intro wait frames rest hwait
      rw [tokens_map, List.cons_append, List.cons_append,
        foldlM_step_cons (step_eq_start hwait (n := ⟨.keyOrEnd [], frames⟩) rfl),
        List.append_assoc]
      cases members with
      | nil => exact foldlM_step_cons rfl
      | cons m members => exact foldlM_members ih (List.cons_ne_nil _ _) (.inr rfl)

end Build

variable {d : Datum}

theorem ofTokens?_tokens (h : Denotable d) : ofTokens? (tokens d) = some d := by
  have hrun := Build.makes_tokens h .value [] [] (.inl rfl)
  rw [List.append_nil] at hrun
  rw [ofTokens?, show (tokens d).foldlM Build.step {} = some (Build.complete [] d) from hrun]
  rfl

theorem read?_compact (h : Denotable d) : read? (compact d) = some d := by
  rw [read?, scan?_compact h]
  exact ofTokens?_tokens h

theorem read?_pretty (h : Denotable d) : read? (pretty d) = some d := by
  rw [read?, scan?_pretty h]
  exact ofTokens?_tokens h

end ForgeSync.Json
