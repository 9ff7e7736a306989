import ForgeSync.Json.Printer
import ForgeSync.Json.Token
import ForgeSync.Proofs.Text.Decimal

/-!
# Scanning printed JSON

What the printer writes is cut into the tokens of the value, in both layouts. The machine that
cuts a text reads one character at a time, so a printed value is followed from the state between
two tokens, with whatever text comes after it. A mark, a quoted text and a blank leave nothing
pending. A run of scalar characters ends with the first character that is none, so what comes
after a value must not begin with one.

Main statements: `scan?_compact` and `scan?_pretty`.
-/

namespace ForgeSync.Json

open Text

/-! ## The tokens of a value -/

/-- Data that JSON text denotes: every scalar is a text, a truth value, null or an integer that
a signed or an unsigned word of 64 bits holds. -/
inductive Denotable : Datum → Prop
  | null : Denotable .null
  | bool (b : Bool) : Denotable (.bool b)
  | int {i : Int} (hlow : -(bound63 : Int) ≤ i) (hhigh : i < bound64) : Denotable (.int i)
  | text (s : String) : Denotable (.text s)
  | list {items : List Datum} (h : ∀ d ∈ items, Denotable d) : Denotable (.list items)
  | map {members : List (String × Datum)} (h : ∀ m ∈ members, Denotable m.2) :
    Denotable (.map members)

/-- The pieces of a list or a map with a comma between any two of them. -/
def commaSeparated (pieces : List (List Token)) : List Token :=
  [Token.comma].intercalate pieces

mutual

/-- The tokens that a value is written with. -/
def tokens : Datum → List Token
  | .text s => [.text s]
  | .plain s => [.text s]
  | .list items => .openList :: commaSeparated (itemTokens items) ++ [.closeList]
  | .series items => .openList :: commaSeparated (itemTokens items) ++ [.closeList]
  | .map members => .openMap :: commaSeparated (memberTokens members) ++ [.closeMap]
  | d => [.scalar d]

def itemTokens : List Datum → List (List Token)
  | [] => []
  | d :: rest => tokens d :: itemTokens rest

def memberTokens : List (String × Datum) → List (List Token)
  | [] => []
  | (key, value) :: rest => (.text key :: .colon :: tokens value) :: memberTokens rest

end

theorem itemTokens_eq_map (items : List Datum) : itemTokens items = items.map tokens := by
  induction items with
  | nil => rfl
  | cons d rest ih => rw [itemTokens, ih, List.map_cons]

theorem memberTokens_eq_map (members : List (String × Datum)) :
    memberTokens members = members.map fun m => .text m.1 :: .colon :: tokens m.2 := by
  induction members with
  | nil => rfl
  | cons m rest ih => rw [memberTokens, ih, List.map_cons]

theorem tokens_list (items : List Datum) :
    tokens (.list items) =
      .openList :: commaSeparated (items.map tokens) ++ [.closeList] := by
  rw [tokens, itemTokens_eq_map]

theorem tokens_map (members : List (String × Datum)) :
    tokens (.map members) =
      .openMap :: commaSeparated (members.map fun m => .text m.1 :: .colon :: tokens m.2) ++
        [.closeMap] := by
  rw [tokens, memberTokens_eq_map]

theorem compactItems_eq_map (items : List Datum) : compactItems items = items.map compact := by
  induction items with
  | nil => rfl
  | cons d rest ih => rw [compactItems, ih, List.map_cons]

theorem compactMembers_eq_map (members : List (String × Datum)) :
    compactMembers members = members.map fun m => quote m.1 ++ ":" ++ compact m.2 := by
  induction members with
  | nil => rfl
  | cons m rest ih => rw [compactMembers, ih, List.map_cons]

theorem spreadItems_eq_map (level : Nat) (items : List Datum) :
    spreadItems level items = items.map (spread level) := by
  induction items with
  | nil => rfl
  | cons d rest ih => rw [spreadItems, ih, List.map_cons]

theorem spreadMembers_eq_map (level : Nat) (members : List (String × Datum)) :
    spreadMembers level members =
      members.map fun m => quote m.1 ++ ": " ++ spread level m.2 := by
  induction members with
  | nil => rfl
  | cons m rest ih => rw [spreadMembers, ih, List.map_cons]

namespace Token

variable {a b cs rest : List Char} {ts us : List Token} {scan n : Scan} {c : Char}

/-! ## Runs of the machine -/

/-- The tokens of a text from a state of the machine on. -/
def scanFrom (scan : Scan) (cs : List Char) : Option (List Token) := do
  let last ← cs.foldlM step scan
  match last.mode with
  | .between => return last.done.reverse
  | .scalar unfinished => return (.scalar (← scalar? unfinished.reverse) :: last.done).reverse
  | _ => none

theorem scan?_eq_scanFrom (cs : List Char) : scan? cs = scanFrom {} cs := rfl

theorem scanFrom_nil (done : List Token) : scanFrom ⟨.between, done⟩ [] = some done.reverse := rfl

theorem scanFrom_cons (h : step scan c = some n) :
    scanFrom scan (c :: cs) = scanFrom n cs := by
  simp only [scanFrom, List.foldlM_cons, h, Option.bind_eq_bind, Option.bind_some]

/-- A text that the machine cuts into tokens with nothing left pending. -/
def Cuts (cs : List Char) (ts : List Token) : Prop :=
  ∀ done rest, scanFrom ⟨.between, done⟩ (cs ++ rest) = scanFrom ⟨.between, ts.reverse ++ done⟩ rest

/-- A text that does not go on with a scalar character. -/
def StopsScalar (cs : List Char) : Prop :=
  ∀ c ∈ cs.head?, isScalarChar c = false

/-- A text that the machine cuts into tokens once it comes to the end of a scalar. -/
def Reads (cs : List Char) (ts : List Token) : Prop :=
  ∀ done rest, StopsScalar rest →
    scanFrom ⟨.between, done⟩ (cs ++ rest) = scanFrom ⟨.between, ts.reverse ++ done⟩ rest

theorem Cuts.reads (h : Cuts cs ts) : Reads cs ts :=
  fun done rest _ => h done rest

theorem cuts_nil : Cuts [] [] :=
  fun _ _ => rfl

theorem Cuts.append (ha : Cuts a ts) (hb : Cuts b us) : Cuts (a ++ b) (ts ++ us) := by
  intro done rest
  rw [List.append_assoc, ha, hb, List.reverse_append, List.append_assoc]

theorem Cuts.append_reads (ha : Cuts a ts) (hb : Reads b us) : Reads (a ++ b) (ts ++ us) := by
  intro done rest hstops
  rw [List.append_assoc, ha, hb _ _ hstops, List.reverse_append, List.append_assoc]

/-- A scalar is complete where a text follows that does not go on with it. -/
theorem Reads.append_cuts (ha : Reads a ts) (hb : Cuts b us) (hne : b ≠ [])
    (hstops : StopsScalar b) : Cuts (a ++ b) (ts ++ us) := by
  intro done rest
  have hgoes : StopsScalar (b ++ rest) := by
    obtain ⟨c, tail, rfl⟩ := List.exists_cons_of_ne_nil hne
    exact hstops
  rw [List.append_assoc, ha _ _ hgoes, hb, List.reverse_append, List.append_assoc]

theorem Reads.scan? (h : Reads cs ts) : scan? cs = some ts := by
  have hrun := h [] [] (by simp [StopsScalar])
  rw [List.append_nil, List.append_nil, scanFrom_nil, List.reverse_reverse] at hrun
  rw [scan?_eq_scanFrom]
  exact hrun

/-! ## Marks and blanks -/

theorem cuts_mark {t : Token} (h : ∀ done, stepBetween done c = some ⟨.between, t :: done⟩) :
    Cuts [c] [t] :=
  fun done _ => scanFrom_cons (h done)

theorem cuts_comma : Cuts [','] [.comma] :=
  cuts_mark fun _ => rfl

theorem cuts_colon : Cuts [':'] [.colon] :=
  cuts_mark fun _ => rfl

theorem cuts_blanks (h : ∀ c ∈ cs, isBlank c = true) : Cuts cs [] := by
  induction cs with
  | nil => exact cuts_nil
  | cons c cs ih =>
      intro done rest
      have hstep : step ⟨.between, done⟩ c = some ⟨.between, done⟩ :=
        if_pos (h c List.mem_cons_self)
      rw [List.cons_append, scanFrom_cons hstep]
      exact ih (fun d hd => h d (List.mem_cons_of_mem c hd)) done rest

/-! ## Quoted texts -/

theorem digitInBase?_digitChar : ∀ n < 16, Datum.digitInBase? 16 (Nat.digitChar n) = some n := by
  decide

/-- A character is written as an escape of one letter, as an escaped code unit or as itself. -/
theorem quotedChar_cases (c : Char) :
    (∃ e, quotedChar c = ['\\', e] ∧ e ≠ 'u' ∧ unescape? e = some c) ∨
    (c.toNat < 0x20 ∧ quotedChar c =
      ['\\', 'u', '0', '0', Nat.digitChar (c.toNat / 16), Nat.digitChar (c.toNat % 16)]) ∨
    (c ≠ '"' ∧ c ≠ '\\' ∧ 0x20 ≤ c.toNat ∧ quotedChar c = [c]) := by
  by_cases hshort : c ∈ ['"', '\\', '\x08', '\x0c', '\n', '\r', '\t']
  · left
    simp only [List.mem_cons, List.not_mem_nil, or_false] at hshort
    obtain rfl | rfl | rfl | rfl | rfl | rfl | rfl := hshort
    all_goals exact ⟨_, rfl, by decide, rfl⟩
  · right
    simp only [List.mem_cons, List.not_mem_nil, or_false, not_or] at hshort
    obtain ⟨hquote, hbackslash, hb, hf, hn, hr, ht⟩ := hshort
    simp only [quotedChar, if_neg hquote, if_neg hbackslash, if_neg hb, if_neg hf, if_neg hn,
      if_neg hr, if_neg ht]
    by_cases hcontrol : c.toNat < 0x20
    · exact .inl ⟨hcontrol, if_pos hcontrol⟩
    · exact .inr ⟨hquote, hbackslash, Nat.le_of_not_lt hcontrol, if_neg hcontrol⟩

/-- Inside quotes, what stands for a character is read as that character. -/
theorem scanFrom_quotedChar (c : Char) (seen rest : List Char) (done : List Token) :
    scanFrom ⟨.quoted seen, done⟩ (quotedChar c ++ rest) =
      scanFrom ⟨.quoted (c :: seen), done⟩ rest := by
  have hescape : ∀ {cs}, scanFrom ⟨.quoted seen, done⟩ ('\\' :: cs) =
      scanFrom ⟨.escaped seen, done⟩ cs := scanFrom_cons rfl
  obtain ⟨e, htext, hletter, hmeant⟩ | ⟨hcontrol, htext⟩ | ⟨hquote, hbackslash, hplain, htext⟩ :=
    quotedChar_cases c
  · rw [htext, List.cons_append, hescape]
    exact scanFrom_cons (by simp [step, hletter, hmeant])
  · -- the four digits give the character's code, which is below those of surrogates
    have hhigh := digitInBase?_digitChar (c.toNat / 16) (by omega)
    have hlow := digitInBase?_digitChar (c.toNat % 16) (by omega)
    have hcode : 16 * (c.toNat / 16) + c.toNat % 16 = c.toNat := by omega
    have hunit : afterCodeUnit seen none c.toNat = some (.quoted (c :: seen)) := by
      have hsmall : ¬ 0xD800 ≤ c.toNat ∧ ¬ 0xDC00 ≤ c.toNat := by omega
      simp [afterCodeUnit, hsmall]
    rw [htext]
    simp only [List.cons_append, List.nil_append]
    rw [hescape, scanFrom_cons (n := ⟨.codeUnit seen none 4 0, done⟩) rfl,
      scanFrom_cons (n := ⟨.codeUnit seen none 3 0, done⟩) rfl,
      scanFrom_cons (n := ⟨.codeUnit seen none 2 0, done⟩) rfl,
      scanFrom_cons (n := ⟨.codeUnit seen none 1 (c.toNat / 16), done⟩)
        (by simp [step, hhigh])]
    exact scanFrom_cons (by simp [step, hlow, hcode, hunit])
  · have hstep : step ⟨.quoted seen, done⟩ c = some ⟨.quoted (c :: seen), done⟩ := by
      simp [step, hquote, hbackslash, Nat.not_lt_of_le hplain]
    rw [htext, List.cons_append, scanFrom_cons hstep, List.nil_append]

theorem cuts_quote (s : String) : Cuts (quote s).toList [.text s] := by
  have hinside : ∀ (cs seen : List Char) (done : List Token) (rest : List Char),
      scanFrom ⟨.quoted seen, done⟩ (cs.flatMap quotedChar ++ rest) =
        scanFrom ⟨.quoted (cs.reverse ++ seen), done⟩ rest := by
    intro cs
    induction cs with
    | nil => exact fun _ _ _ => rfl
    | cons c cs ih =>
        intro seen done rest
        rw [List.flatMap_cons, List.append_assoc, scanFrom_quotedChar, ih, List.reverse_cons,
          List.append_assoc, List.singleton_append]
  intro done rest
  have htext : (quote s).toList ++ rest = '"' :: (s.toList.flatMap quotedChar ++ '"' :: rest) := by
    simp [quote]
  rw [htext, scanFrom_cons (n := ⟨.quoted [], done⟩) rfl, hinside]
  rw [scanFrom_cons (n := ⟨.between, .text s :: done⟩) (by simp [step])]
  rfl

/-! ## Scalars -/

theorem stepBetween_of_isScalarChar (done : List Token) (h : isScalarChar c = true) :
    stepBetween done c = some ⟨.scalar [c], done⟩ := by
  have hother : ∀ d, isScalarChar d = false → c ≠ d := by
    rintro d hd rfl
    exact absurd h (by simp [hd])
  have hblank : isBlank c = false := by
    simp only [isBlank, hother ' ' rfl, hother '\t' rfl, hother '\n' rfl, hother '\r' rfl,
      decide_false, Bool.or_self]
  simp [stepBetween, hblank, h, hother '[' rfl, hother ']' rfl, hother '\x7b' rfl,
    hother '\x7d' rfl, hother ',' rfl, hother ':' rfl, hother '"' rfl]

theorem scanFrom_scalar (seen : List Char) (done : List Token)
    (h : ∀ c ∈ cs, isScalarChar c = true) :
    scanFrom ⟨.scalar seen, done⟩ (cs ++ rest) =
      scanFrom ⟨.scalar (cs.reverse ++ seen), done⟩ rest := by
  induction cs generalizing seen with
  | nil => rfl
  | cons c cs ih =>
      have hstep : step ⟨.scalar seen, done⟩ c = some ⟨.scalar (c :: seen), done⟩ :=
        if_pos (h c List.mem_cons_self)
      rw [List.cons_append, scanFrom_cons hstep, ih _ fun d hd => h d (List.mem_cons_of_mem c hd),
        List.reverse_cons, List.append_assoc, List.singleton_append]

/-- A pending scalar is a token as soon as the text does not go on with it. -/
theorem scanFrom_of_stopsScalar {value : Datum} (done : List Token)
    (hvalue : scalar? cs.reverse = some value) (hstops : StopsScalar rest) :
    scanFrom ⟨.scalar cs, done⟩ rest = scanFrom ⟨.between, .scalar value :: done⟩ rest := by
  cases rest with
  | nil => simp [scanFrom, hvalue]
  | cons c rest =>
      have hc : isScalarChar c = false := hstops c rfl
      have hstep : step ⟨.scalar cs, done⟩ c = step ⟨.between, .scalar value :: done⟩ c := by
        simp [step, hc, hvalue]
      simp only [scanFrom, List.foldlM_cons, hstep]

theorem reads_scalar {value : Datum} (hne : cs ≠ []) (hall : ∀ c ∈ cs, isScalarChar c = true)
    (hvalue : scalar? cs = some value) : Reads cs [.scalar value] := by
  intro done rest hstops
  obtain ⟨c, tail, rfl⟩ := List.exists_cons_of_ne_nil hne
  have hstep : step ⟨.between, done⟩ c = some ⟨.scalar [c], done⟩ :=
    stepBetween_of_isScalarChar done (hall c List.mem_cons_self)
  rw [List.cons_append, scanFrom_cons hstep,
    scanFrom_scalar _ _ fun d hd => hall d (List.mem_cons_of_mem c hd),
    scanFrom_of_stopsScalar done (by simpa using hvalue) hstops]
  rfl

/-! ## Integers -/

theorem isScalarChar_of_isDigit (h : c.isDigit = true) : isScalarChar c = true := by
  simp [isScalarChar, Char.isAlphanum, h]

/-- A run that begins with a digit or a sign is not one of the three words. -/
theorem scalar?_eq_number? (h : c.isDigit = true ∨ c = '-') :
    scalar? (c :: cs) = number? (c :: cs) := by
  have hword : ∀ d tail, d.isDigit = false → d ≠ '-' →
      String.ofList (c :: cs) ≠ String.ofList (d :: tail) := by
    intro d tail hdigit hsign heq
    obtain ⟨rfl, -⟩ := List.cons.inj (String.ofList_injective heq)
    obtain h | h := h
    · exact absurd h (by simp [hdigit])
    · exact hsign h
  unfold scalar?
  split
  · rename_i heq
    exact absurd heq (hword 'n' ['u', 'l', 'l'] rfl (by decide))
  · rename_i heq
    exact absurd heq (hword 't' ['r', 'u', 'e'] rfl (by decide))
  · rename_i heq
    exact absurd heq (hword 'f' ['a', 'l', 's', 'e'] rfl (by decide))
  · rfl

theorem isWholePart_toDigits (n : Nat) : isWholePart (Nat.toDigits 10 n) = true := by
  unfold isWholePart
  split
  · rename_i heq
    exact absurd heq Nat.toDigits_ne_nil
  · rfl
  · rename_i tail hmore heq
    obtain ⟨-, rfl⟩ := toDigits_eq_zero_cons heq
    exact absurd rfl hmore
  · exact List.all_eq_true.2 fun _ => isDigit_of_mem_toDigits

theorem number?_toDigits {n : Nat} (h : n < bound64) :
    number? (Nat.toDigits 10 n) = some (.int n) := by
  unfold number?
  split
  rename_i negative unsigned hsign
  split at hsign
  · rename_i tail heq
    have hminus : '-'.isDigit = true := isDigit_of_mem_toDigits (n := n) (by simp [heq])
    contradiction
  · cases hsign
    simp [takeWhile_isDigit fun _ => isDigit_of_mem_toDigits,
      dropWhile_isDigit fun _ => isDigit_of_mem_toDigits, isWholePart_toDigits,
      natOfDigits?_toDigits, h]

theorem number?_neg_toDigits {n : Nat} (hpos : n ≠ 0) (h : n ≤ bound63) :
    number? ('-' :: Nat.toDigits 10 n) = some (.int (-(n : Int))) := by
  simp [number?, takeWhile_isDigit fun _ => isDigit_of_mem_toDigits,
    dropWhile_isDigit fun _ => isDigit_of_mem_toDigits, isWholePart_toDigits,
    natOfDigits?_toDigits, hpos, Nat.not_lt_of_le h]

theorem isScalarChar_of_mem_toDigits {n : Nat} (h : c ∈ Nat.toDigits 10 n) :
    isScalarChar c = true :=
  isScalarChar_of_isDigit (isDigit_of_mem_toDigits h)

theorem reads_int {i : Int} (hlow : -(bound63 : Int) ≤ i) (hhigh : i < bound64) :
    Reads (toString i).toList [.scalar (.int i)] := by
  cases i with
  | ofNat n =>
      have hdigits : (toString (Int.ofNat n)).toList = Nat.toDigits 10 n := Nat.toList_repr
      have hvalue : scalar? (Nat.toDigits 10 n) = some (.int n) := by
        obtain ⟨c, tail, hcons⟩ := List.exists_cons_of_ne_nil
          (Nat.toDigits_ne_nil (n := n) (b := 10))
        have hc : c.isDigit = true := isDigit_of_mem_toDigits (n := n) (by simp [hcons])
        rw [hcons, scalar?_eq_number? (.inl hc), ← hcons]
        exact number?_toDigits (Int.ofNat_lt.1 hhigh)
      rw [hdigits]
      exact reads_scalar Nat.toDigits_ne_nil (fun _ => isScalarChar_of_mem_toDigits) hvalue
  | negSucc n =>
      have hdigits : (toString (Int.negSucc n)).toList = '-' :: Nat.toDigits 10 (n + 1) := by
        simp [toString, Int.repr]
      have hvalue : scalar? ('-' :: Nat.toDigits 10 (n + 1)) = some (.int (Int.negSucc n)) := by
        rw [scalar?_eq_number? (.inr rfl)]
        exact number?_neg_toDigits (Nat.succ_ne_zero n) (by omega)
      rw [hdigits]
      refine reads_scalar (List.cons_ne_nil _ _) (fun c hc => ?_) hvalue
      obtain rfl | hdigit := List.mem_cons.1 hc
      · rfl
      · exact isScalarChar_of_mem_toDigits hdigit

/-! ## Lists and maps -/

/-- Pieces with commas between them, and perhaps blanks behind each comma. -/
theorem reads_intercalate {α : Type} {pieces : List α} {text : α → List Char}
    {toks : α → List Token} {blanks : List Char} (hblanks : ∀ c ∈ blanks, isBlank c = true)
    (h : ∀ p ∈ pieces, Reads (text p) (toks p)) :
    Reads ((',' :: blanks).intercalate (pieces.map text)) (commaSeparated (pieces.map toks)) := by
  have hsep : Cuts (',' :: blanks) [.comma] := cuts_comma.append (cuts_blanks hblanks)
  have hstops : StopsScalar (',' :: blanks) := by simp [StopsScalar, isScalarChar]
  induction pieces with
  | nil => exact cuts_nil.reads
  | cons p rest ih =>
      have hp := h p List.mem_cons_self
      have hrest := ih fun q hq => h q (List.mem_cons_of_mem p hq)
      cases rest with
      | nil => simpa [commaSeparated] using hp
      | cons q rest =>
          have hcomma := hp.append_cuts hsep (List.cons_ne_nil _ _) hstops
          simp only [commaSeparated, List.map_cons, List.intercalate_cons_cons]
          exact hcomma.append_reads hrest

theorem isScalarChar_of_isBlank (h : isBlank c = true) : isScalarChar c = false := by
  simp only [isBlank, Bool.or_eq_true, decide_eq_true_eq] at h
  obtain ((rfl | rfl) | rfl) | rfl := h
  all_goals decide

/-- What stands between two marks, with blanks around it. -/
theorem cuts_enclosed {opening closing : Char} {first last : Token} {before after : List Char}
    (hopening : Cuts [opening] [first]) (hclosing : Cuts [closing] [last])
    (hmark : isScalarChar closing = false) (hbefore : ∀ c ∈ before, isBlank c = true)
    (hafter : ∀ c ∈ after, isBlank c = true) (h : Reads cs ts) :
    Cuts ([opening] ++ before ++ cs ++ (after ++ [closing])) (first :: ts ++ [last]) := by
  have hfront : Reads ([opening] ++ before ++ cs) (first :: ts) :=
    (hopening.append (cuts_blanks hbefore)).append_reads h
  refine hfront.append_cuts ((cuts_blanks hafter).append hclosing) (by simp) ?_
  cases after with
  | nil => simpa [StopsScalar] using hmark
  | cons c after => simpa [StopsScalar] using isScalarChar_of_isBlank (hafter c List.mem_cons_self)

/-- Pieces between square brackets are the tokens of a list. -/
theorem cuts_list {α : Type} {pieces : List α} {text : α → List Char} {toks : α → List Token}
    (before after : List Char) (hbefore : ∀ c ∈ before, isBlank c = true)
    (hafter : ∀ c ∈ after, isBlank c = true) (h : ∀ p ∈ pieces, Reads (text p) (toks p)) :
    Cuts (['['] ++ before ++ (',' :: before).intercalate (pieces.map text) ++ (after ++ [']']))
      (.openList :: commaSeparated (pieces.map toks) ++ [.closeList]) :=
  cuts_enclosed (cuts_mark fun _ => rfl) (cuts_mark fun _ => rfl) rfl hbefore hafter
    (reads_intercalate hbefore h)

/-- Pieces between curly brackets are the tokens of a map. -/
theorem cuts_map {α : Type} {pieces : List α} {text : α → List Char} {toks : α → List Token}
    (before after : List Char) (hbefore : ∀ c ∈ before, isBlank c = true)
    (hafter : ∀ c ∈ after, isBlank c = true) (h : ∀ p ∈ pieces, Reads (text p) (toks p)) :
    Cuts (['\x7b'] ++ before ++ (',' :: before).intercalate (pieces.map text) ++
        (after ++ ['\x7d']))
      (.openMap :: commaSeparated (pieces.map toks) ++ [.closeMap]) :=
  cuts_enclosed (cuts_mark fun _ => rfl) (cuts_mark fun _ => rfl) rfl hbefore hafter
    (reads_intercalate hbefore h)

/-- A member of a map: its key, a colon with perhaps blanks behind it, and its value. -/
theorem reads_member (key : String) (blanks : List Char) {value : List Char}
    (hblanks : ∀ c ∈ blanks, isBlank c = true) (h : Reads value ts) :
    Reads ((quote key).toList ++ (':' :: blanks) ++ value) (.text key :: .colon :: ts) :=
  ((cuts_quote key).append (cuts_colon.append (cuts_blanks hblanks))).append_reads h

/-! ## Values -/

theorem reads_compact {d : Datum} (h : Denotable d) : Reads (compact d).toList (tokens d) := by
  induction h with
  | null => exact reads_scalar (by simp [compact]) (by simp [compact]; decide) rfl
  | bool b => cases b <;> exact reads_scalar (by simp [compact]) (by simp [compact]; decide) rfl
  | int hlow hhigh => exact reads_int hlow hhigh
  | text s => exact (cuts_quote s).reads
  | @list items h ih =>
      have htext : (compact (.list items)).toList = ['['] ++ [] ++
          [','].intercalate (items.map fun d => (compact d).toList) ++ ([] ++ [']']) := by
        simp [compact, compactItems_eq_map, Function.comp_def]
      rw [htext, tokens_list]
      exact (cuts_list [] [] (by simp) (by simp) ih).reads
  | @map members h ih =>
      have htext : (compact (.map members)).toList = ['\x7b'] ++ [] ++
          [','].intercalate (members.map fun m =>
            (quote m.1).toList ++ [':'] ++ (compact m.2).toList) ++ ([] ++ ['\x7d']) := by
        simp [compact, compactMembers_eq_map, Function.comp_def]
      have hmember : ∀ m ∈ members, Reads ((quote m.1).toList ++ [':'] ++ (compact m.2).toList)
          (.text m.1 :: .colon :: tokens m.2) :=
        fun m hm => reads_member m.1 [] (by simp) (ih m hm)
      rw [htext, tokens_map]
      exact (cuts_map [] [] (by simp) (by simp) hmember).reads

/-- Lines are spread with blanks alone before, behind and between them. -/
theorem toList_spreadLines (opening closing : String) (level : Nat) (lines : List String) :
    ∃ before after, (∀ c ∈ before, isBlank c = true) ∧ (∀ c ∈ after, isBlank c = true) ∧
      (spreadLines opening closing level lines).toList = opening.toList ++ before ++
        (',' :: before).intercalate (lines.map String.toList) ++ (after ++ closing.toList) := by
  have hblank : ∀ {level c}, c ∈ (newline level).toList → isBlank c = true := by
    intro level c hc
    simp only [newline, String.toList_append, String.toList_ofList, List.mem_append,
      List.mem_replicate] at hc
    obtain hc | ⟨-, rfl⟩ := hc
    · obtain rfl : c = '\n' := by simpa using hc
      rfl
    · rfl
  cases lines with
  | nil => exact ⟨[], [], by simp, by simp, by simp [spreadLines]⟩
  | cons line rest =>
      exact ⟨(newline (level + 1)).toList, (newline level).toList, fun _ => hblank,
        fun _ => hblank, by simp [spreadLines]⟩

theorem reads_spread {d : Datum} (h : Denotable d) (level : Nat) :
    Reads (spread level d).toList (tokens d) := by
  induction h generalizing level with
  | null => exact reads_compact .null
  | bool b => exact reads_compact (.bool b)
  | int hlow hhigh => exact reads_compact (.int hlow hhigh)
  | text s => exact reads_compact (.text s)
  | @list items h ih =>
      obtain ⟨before, after, hbefore, hafter, htext⟩ :=
        toList_spreadLines "[" "]" level (items.map (spread (level + 1)))
      rw [spread, spreadItems_eq_map, htext, tokens_list, List.map_map]
      exact (cuts_list before after hbefore hafter fun d hd => ih d hd _).reads
  | @map members h ih =>
      obtain ⟨before, after, hbefore, hafter, htext⟩ := toList_spreadLines "\x7b" "\x7d" level
        (members.map fun m => quote m.1 ++ ": " ++ spread (level + 1) m.2)
      have hmember : ∀ m ∈ members,
          Reads (quote m.1 ++ ": " ++ spread (level + 1) m.2).toList
            (.text m.1 :: .colon :: tokens m.2) := by
        intro m hm
        rw [String.toList_append, String.toList_append]
        exact reads_member m.1 [' '] (by simp; rfl) (ih m hm _)
      rw [spread, spreadMembers_eq_map, htext, tokens_map, List.map_map]
      exact (cuts_map before after hbefore hafter hmember).reads

end Token

theorem scan?_compact {d : Datum} (h : Denotable d) :
    Token.scan? (compact d).toList = some (tokens d) :=
  (Token.reads_compact h).scan?

theorem scan?_pretty {d : Datum} (h : Denotable d) :
    Token.scan? (pretty d).toList = some (tokens d) :=
  (Token.reads_spread h 0).scan?

end ForgeSync.Json
