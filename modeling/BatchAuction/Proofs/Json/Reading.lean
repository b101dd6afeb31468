import BatchAuction.Json.Parser
import Mathlib.Data.List.Chain

/-!
# A written value is read back

Writing a value and reading the text gives the value again, if its strings and numbers are spelled
as the lexer reads them (`Json.parse_render`). Reading has two parts. The lexer finds the tokens of
the value one after the other (`Json.lex_text`); a number has no end of its own, so what comes after
it matters, and in a value that is a comma, a closing bracket or nothing. The parser takes the
tokens of a value as one step from expecting a value to having read one (`Json.run_tokens`),
whatever containers are open around it.
-/

namespace BatchAuction

namespace Json

/-! ## Spelling -/

/-- The lexer reads the string or number to its end, and to no other token before. -/
def Token.Spelled : Token → Prop
  | .string raw => ∀ tokens,
      LexState.run ⟨.string [], tokens⟩ raw = some ⟨.string raw.reverse, tokens⟩
  | .number literal => ∃ part : NumberPart, part.isComplete = true ∧ ∀ tokens,
      LexState.run ⟨.between, tokens⟩ literal = some ⟨.number part literal.reverse, tokens⟩
  | _ => True

/-- A token that shows where a number before it ends. -/
def Token.Delimits (t : Token) : Prop := t = .comma ∨ t = .closeArray ∨ t = .closeObject

/-- One token may stand behind another one without a space. -/
def Token.Joins (t u : Token) : Prop := ∀ literal, t = .number literal → u.Delimits

/-- Any token may come before one that delimits itself. -/
theorem Token.Delimits.joins {u : Token} (h : u.Delimits) (t : Token) : t.Joins u := fun _ _ => h

/-- All strings and numbers of a value are spelled. -/
def Spelled (j : Json) : Prop := ∀ t ∈ j.tokens, t.Spelled

/-! ## The lexer -/

namespace LexState

/-- A text is read in two parts. -/
theorem run_append (l m : List Char) :
    ∀ s : LexState, s.run (l ++ m) = (s.run l).bind fun s => s.run m := by
  induction l with
  | nil => exact fun _ => rfl
  | cons c l ih =>
    intro s
    rw [List.cons_append, run, run]
    cases s.step c with
    | none => rfl
    | some s => exact ih s

/-- Characters that each keep the lexer in a string or number become part of it. -/
theorem run_seen {mode : List Char → LexMode} {tokens : List Token} {cs : List Char}
    (h : ∀ c ∈ cs, ∀ seen, step ⟨mode seen, tokens⟩ c = some ⟨mode (c :: seen), tokens⟩) :
    ∀ seen, run ⟨mode seen, tokens⟩ cs = some ⟨mode (cs.reverse ++ seen), tokens⟩ := by
  induction cs with
  | nil => exact fun _ => rfl
  | cons c cs ih =>
    intro seen
    rw [run, h c List.mem_cons_self]
    refine (ih (fun d hd => h d (List.mem_cons_of_mem _ hd)) (c :: seen)).trans ?_
    rw [List.reverse_cons, List.append_assoc]
    rfl

/-- The lexer has read some tokens, where the last one may be a number that goes on. -/
inductive HasRead : List Token → LexState → Prop
  /-- The last token is finished. -/
  | between (tokens : List Token) : HasRead tokens ⟨.between, tokens.reverse⟩
  /-- The last token is a number. -/
  | number {part : NumberPart} (tokens : List Token) (literal : List Char) :
      part.isComplete = true →
      HasRead (tokens ++ [.number literal]) ⟨.number part literal.reverse, tokens.reverse⟩

/-- After a token that delimits itself all tokens have been read. -/
theorem HasRead.snoc (tokens : List Token) (t : Token) :
    HasRead (tokens ++ [t]) ⟨.between, t :: tokens.reverse⟩ := by
  have h := HasRead.between (tokens ++ [t])
  rwa [List.reverse_append] at h

/-- A complete number does not go on with a delimiter. -/
theorem step_number {part : NumberPart} {seen : List Char} {tokens : List Token} {t : Token}
    (hpart : part.isComplete = true) (ht : t.Delimits) :
    run ⟨.number part seen, tokens⟩ t.text =
      some ⟨.between, t :: .number seen.reverse :: tokens⟩ := by
  rcases ht with rfl | rfl | rfl <;> cases part <;> first | rfl | cases hpart

/-- A token is read after others if it may come after the last of them. -/
theorem HasRead.token {tokens : List Token} {s : LexState} {t : Token} (h : HasRead tokens s)
    (ht : t.Spelled) (hjoin : ∀ u ∈ tokens.getLast?, u.Joins t) :
    ∃ s', s.run t.text = some s' ∧ HasRead (tokens ++ [t]) s' := by
  cases h with
  | between =>
    cases t with
    | number literal =>
      obtain ⟨part, hpart, hrun⟩ := ht
      exact ⟨_, hrun _, .number tokens literal hpart⟩
    | string raw =>
      refine ⟨_, ?_, .snoc tokens _⟩
      show run ⟨.string [], tokens.reverse⟩ (raw ++ ['"']) = _
      rw [run_append, ht tokens.reverse]
      show some (emit _ (.string raw.reverse.reverse)) = _
      rw [List.reverse_reverse]
      rfl
    | bool value => cases value <;> exact ⟨_, rfl, .snoc tokens _⟩
    | _ => exact ⟨_, rfl, .snoc tokens _⟩
  | number tokens literal hpart =>
    have hlast := hjoin (.number literal) List.getLast?_concat
    have hread := HasRead.snoc (tokens ++ [.number literal]) t
    rw [List.reverse_append] at hread
    refine ⟨_, step_number hpart (hlast literal rfl), ?_⟩
    rw [List.reverse_reverse]
    exact hread

/-- Tokens that may stand side by side are read one after the other. -/
theorem HasRead.tokens {more : List Token} :
    ∀ {tokens : List Token} {s : LexState}, HasRead tokens s → (∀ t ∈ more, t.Spelled) →
      (tokens ++ more).IsChain Token.Joins →
      ∃ s', s.run (more.flatMap Token.text) = some s' ∧ HasRead (tokens ++ more) s' := by
  induction more with
  | nil =>
    intro tokens s h _ _
    exact ⟨s, rfl, (List.append_nil tokens).symm ▸ h⟩
  | cons t more ih =>
    intro tokens s h hspelled hchain
    obtain ⟨s', hrun, h'⟩ := h.token (hspelled t List.mem_cons_self) fun u hu =>
      (List.isChain_append.1 hchain).2.2 u hu t rfl
    rw [List.append_cons] at hchain
    obtain ⟨s'', hrun', h''⟩ := ih h' (fun u hu => hspelled u (List.mem_cons_of_mem _ hu)) hchain
    refine ⟨s'', ?_, ?_⟩
    · rw [List.flatMap_cons, run_append, hrun]
      exact hrun'
    · rwa [List.append_cons]

/-- At the end the tokens are all that has been read. -/
theorem HasRead.finish {tokens : List Token} {s : LexState} (h : HasRead tokens s) :
    s.finish = some tokens := by
  cases h with
  | between => exact congrArg some (List.reverse_reverse tokens)
  | number tokens literal hpart =>
    rw [LexState.finish]
    simp only [hpart, if_true, List.reverse_reverse, List.reverse_cons]

end LexState

/-- The text of some tokens has these tokens. -/
theorem lex_text {tokens : List Token} (hspelled : ∀ t ∈ tokens, t.Spelled)
    (hchain : tokens.IsChain Token.Joins) : lex (tokens.flatMap Token.text) = some tokens := by
  obtain ⟨s, hrun, hread⟩ := (LexState.HasRead.between []).tokens hspelled hchain
  show (LexState.run ⟨.between, [].reverse⟩ _).bind _ = _
  rw [hrun]
  exact hread.finish

/-! ## The tokens of a value -/

/-- Induction over values, with the items of an array and the members of an object. -/
theorem induction {P : Json → Prop} (hnull : P .null) (hbool : ∀ value, P (.bool value))
    (hnumber : ∀ literal, P (.number literal)) (hstring : ∀ raw, P (.string raw))
    (harray : ∀ items, (∀ j ∈ items, P j) → P (.array items))
    (hobject : ∀ members, (∀ m ∈ members, P m.2) → P (.object members)) : ∀ j, P j
  | .null => hnull
  | .bool value => hbool value
  | .number literal => hnumber literal
  | .string raw => hstring raw
  | .array items => harray items fun j _ =>
      induction hnull hbool hnumber hstring harray hobject j
  | .object members => hobject members fun m hm =>
      have hlt : sizeOf m.2 < sizeOf members := by
        have hmem := List.sizeOf_lt_of_mem hm
        cases m
        simp only [Prod.mk.sizeOf_spec] at hmem ⊢
        omega
      induction hnull hbool hnumber hstring harray hobject m.2

/-- Two rows of tokens around one that delimits itself follow on each other. -/
theorem joins_append {l r : List Token} {sep : Token} (hsep : sep.Delimits)
    (hl : l.IsChain Token.Joins) (hr : (sep :: r).IsChain Token.Joins) :
    (l ++ sep :: r).IsChain Token.Joins := by
  refine List.isChain_append.2 ⟨hl, hr, fun t _ u hu => ?_⟩
  obtain rfl : sep = u := Option.some.inj hu
  exact hsep.joins t

/-- Behind a token that is no number, anything may stand. -/
theorem joins_cons {t : Token} {l : List Token} (ht : ∀ literal, t ≠ .number literal)
    (hl : l.IsChain Token.Joins) : (t :: l).IsChain Token.Joins :=
  List.isChain_cons.2 ⟨fun _ _ literal heq => absurd heq (ht literal), hl⟩

/-- The tokens of an array follow on each other if those of its items do. -/
theorem joins_itemTokens {items : List Json} (h : ∀ j ∈ items, j.tokens.IsChain Token.Joins) :
    (itemTokens items).IsChain Token.Joins := by
  induction items with
  | nil => exact .nil
  | cons j items ih =>
    cases items with
    | nil => exact h j List.mem_cons_self
    | cons next items =>
      exact joins_append (.inl rfl) (h j List.mem_cons_self)
        (joins_cons (fun _ => nofun) (ih fun i hi => h i (List.mem_cons_of_mem _ hi)))

/-- And so do those of an object. -/
theorem joins_membersTokens {members : List (List Char × Json)}
    (h : ∀ m ∈ members, m.2.tokens.IsChain Token.Joins) :
    (membersTokens members).IsChain Token.Joins := by
  have member {m : List Char × Json} (hm : m.2.tokens.IsChain Token.Joins) :
      (memberTokens m.1 m.2.tokens).IsChain Token.Joins :=
    joins_cons (fun _ => nofun) (joins_cons (fun _ => nofun) hm)
  induction members with
  | nil => exact .nil
  | cons m members ih =>
    cases members with
    | nil => exact member (h m List.mem_cons_self)
    | cons next members =>
      exact joins_append (.inl rfl) (member (h m List.mem_cons_self))
        (joins_cons (fun _ => nofun) (ih fun i hi => h i (List.mem_cons_of_mem _ hi)))

/-- In a value, no token runs into the next one. -/
theorem joins_tokens (j : Json) : j.tokens.IsChain Token.Joins := by
  induction j using Json.induction with
  | harray items ih =>
    exact joins_cons (fun _ => nofun)
      (joins_append (.inr (.inl rfl)) (joins_itemTokens ih) (.singleton _))
  | hobject members ih =>
    exact joins_cons (fun _ => nofun)
      (joins_append (.inr (.inr rfl)) (joins_membersTokens ih) (.singleton _))
  | _ => exact .singleton _

/-- A token of an array is a comma or belongs to an item. -/
theorem mem_itemTokens {t : Token} {items : List Json} (h : t ∈ itemTokens items) :
    t = .comma ∨ ∃ j ∈ items, t ∈ j.tokens := by
  induction items with
  | nil => cases h
  | cons j items ih =>
    cases items with
    | nil => exact .inr ⟨j, List.mem_cons_self, h⟩
    | cons next items =>
      rcases List.mem_append.1 h with h | h
      · exact .inr ⟨j, List.mem_cons_self, h⟩
      · rcases List.mem_cons.1 h with rfl | h
        · exact .inl rfl
        · exact (ih h).imp_right fun ⟨i, hi, ht⟩ => ⟨i, List.mem_cons_of_mem _ hi, ht⟩

/-- A token of an object is a comma, a colon, a key or belongs to a value. -/
theorem mem_membersTokens {t : Token} {members : List (List Char × Json)}
    (h : t ∈ membersTokens members) :
    t = .comma ∨ t = .colon ∨ ∃ m ∈ members, t = .string m.1 ∨ t ∈ m.2.tokens := by
  have member {m : List Char × Json} (h : t ∈ memberTokens m.1 m.2.tokens) :
      t = .colon ∨ t = .string m.1 ∨ t ∈ m.2.tokens := by
    rcases List.mem_cons.1 h with h | h
    · exact .inr (.inl h)
    · exact (List.mem_cons.1 h).imp_right .inr
  induction members with
  | nil => cases h
  | cons m members ih =>
    cases members with
    | nil => exact .inr ((member h).imp_right fun h => ⟨m, List.mem_cons_self, h⟩)
    | cons next members =>
      rcases List.mem_append.1 h with h | h
      · exact .inr ((member h).imp_right fun h => ⟨m, List.mem_cons_self, h⟩)
      · rcases List.mem_cons.1 h with rfl | h
        · exact .inl rfl
        · exact (ih h).imp_right (·.imp_right fun ⟨i, hi, ht⟩ =>
            ⟨i, List.mem_cons_of_mem _ hi, ht⟩)

/-- A value that is one token is spelled if the token is. -/
theorem spelled_of_token {j : Json} {t : Token} (hj : j.tokens = [t]) (h : t.Spelled) :
    j.Spelled := by
  intro u hu
  rw [hj] at hu
  exact List.mem_singleton.1 hu ▸ h

/-- An array can be spelled if its items can. -/
theorem spelled_array {items : List Json} (h : ∀ j ∈ items, j.Spelled) :
    (Json.array items).Spelled := by
  intro t ht
  rcases List.mem_cons.1 ht with rfl | ht
  · exact trivial
  · rcases List.mem_append.1 ht with ht | ht
    · rcases mem_itemTokens ht with rfl | ⟨j, hj, ht⟩
      · exact trivial
      · exact h j hj t ht
    · obtain rfl := List.mem_singleton.1 ht
      exact trivial

/-- An object can be spelled if its keys and values can. -/
theorem spelled_object {members : List (List Char × Json)}
    (hkey : ∀ m ∈ members, (Token.string m.1).Spelled) (h : ∀ m ∈ members, m.2.Spelled) :
    (Json.object members).Spelled := by
  intro t ht
  rcases List.mem_cons.1 ht with rfl | ht
  · exact trivial
  · rcases List.mem_append.1 ht with ht | ht
    · rcases mem_membersTokens ht with rfl | rfl | ⟨m, hm, rfl | ht⟩
      · exact trivial
      · exact trivial
      · exact hkey m hm
      · exact h m hm t ht
    · obtain rfl := List.mem_singleton.1 ht
      exact trivial

/-! ## The parser -/

open ParseState (run)

/-- The first item of an array is read as any other. -/
theorem run_firstItem (j : Json) (stack : List Frame) (rest : List Token) :
    run ⟨.firstItem, stack⟩ (j.tokens ++ rest) = run ⟨.value, stack⟩ (j.tokens ++ rest) := by
  cases j <;> rfl

/-- What a parser that expects a value does with the tokens of one. -/
def ReadAsOne (j : Json) : Prop :=
  ∀ stack rest, run ⟨.value, stack⟩ (j.tokens ++ rest) = run ⟨.after j, stack⟩ rest

/-- Items that are each read as one are read as an array. -/
theorem run_itemTokens {stack : List Frame} {rest : List Token} {items : List Json} :
    ∀ {j : Json} {seen : List Json}, (∀ i ∈ j :: items, ReadAsOne i) →
      run ⟨.value, .array seen :: stack⟩ (itemTokens (j :: items) ++ .closeArray :: rest) =
        run ⟨.after (.array (seen.reverse ++ j :: items)), stack⟩ rest := by
  induction items with
  | nil =>
    intro j seen h
    rw [itemTokens, h j List.mem_cons_self, ← List.reverse_cons]
    rfl
  | cons next items ih =>
    intro j seen h
    have hrest : run ⟨.value, .array (j :: seen) :: stack⟩
        (itemTokens (next :: items) ++ .closeArray :: rest) = _ :=
      ih fun i hi => h i (List.mem_cons_of_mem _ hi)
    rw [itemTokens, List.append_assoc, h j List.mem_cons_self]
    refine hrest.trans ?_
    rw [List.reverse_cons, List.append_assoc]
    rfl

/-- And members as an object. -/
theorem run_membersTokens {stack : List Frame} {rest : List Token}
    {members : List (List Char × Json)} :
    ∀ {m : List Char × Json} {seen : List (List Char × Json)},
      (∀ i ∈ m :: members, ReadAsOne i.2) →
      run ⟨.key seen, stack⟩ (membersTokens (m :: members) ++ .closeObject :: rest) =
        run ⟨.after (.object (seen.reverse ++ m :: members)), stack⟩ rest := by
  induction members with
  | nil =>
    intro m seen h
    rw [membersTokens, ← List.reverse_cons]
    exact h m List.mem_cons_self (.object seen m.1 :: stack) (.closeObject :: rest)
  | cons next members ih =>
    intro m seen h
    have hrest : run ⟨.key (m :: seen), stack⟩
        (membersTokens (next :: members) ++ .closeObject :: rest) = _ :=
      ih fun i hi => h i (List.mem_cons_of_mem _ hi)
    rw [membersTokens, List.append_assoc]
    refine (h m List.mem_cons_self (.object seen m.1 :: stack) _).trans ?_
    refine hrest.trans ?_
    rw [List.reverse_cons, List.append_assoc]
    rfl

/-- The tokens of a value are read as that value, and what follows is read after it. -/
theorem run_tokens (j : Json) : ReadAsOne j := by
  induction j using Json.induction with
  | harray items ih =>
    intro stack rest
    rw [tokens, List.cons_append, List.append_assoc]
    cases items with
    | nil => rfl
    | cons j items =>
      show run ⟨.firstItem, .array [] :: stack⟩ _ = _
      have hfirst : run ⟨.firstItem, .array [] :: stack⟩
          (itemTokens (j :: items) ++ .closeArray :: rest) =
          run ⟨.value, .array [] :: stack⟩ (itemTokens (j :: items) ++ .closeArray :: rest) := by
        cases items with
        | nil => exact run_firstItem j _ _
        | cons next items =>
          rw [itemTokens, List.append_assoc]
          exact run_firstItem j _ _
      exact hfirst.trans (run_itemTokens ih)
  | hobject members ih =>
    intro stack rest
    rw [tokens, List.cons_append, List.append_assoc]
    cases members with
    | nil => rfl
    | cons m members =>
      have hfirst : run ⟨.firstKey, stack⟩
          (membersTokens (m :: members) ++ .closeObject :: rest) =
          run ⟨.key [], stack⟩ (membersTokens (m :: members) ++ .closeObject :: rest) := by
        cases members <;> rfl
      exact hfirst.trans (run_membersTokens ih)
  | _ => exact fun _ _ => rfl

/-- The tokens of a value spell that value. -/
theorem ofTokens_tokens (j : Json) : ofTokens j.tokens = some j := by
  have hrun := run_tokens j [] []
  rw [List.append_nil] at hrun
  show (run ⟨.value, []⟩ j.tokens).bind _ = _
  rw [hrun]
  rfl

/-- A value whose strings and numbers are spelled is read back from its text. -/
theorem parse_render {j : Json} (h : j.Spelled) : parse j.render = some j := by
  rw [parse, render, String.toList_ofList, lex_text h (joins_tokens j)]
  exact ofTokens_tokens j

end Json

end BatchAuction
