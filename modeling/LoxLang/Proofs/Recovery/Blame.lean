import LoxLang.Proofs.Recovery.Calls
import LoxLang.Proofs.Recovery.Containment

/-!
# No token is blamed twice

The mistakes for which declarations are dropped stand one behind the other, since
recovery skips the token that was blamed.  Only the end is not skipped, and it is
blamed again for each block that is open there.
-/

namespace LoxLang.Recovery

open Reply

/-- Two mistakes in the order of their reports: not at one token, and panics in the order of
the text.  The end alone is blamed again. -/
structure Apart (earlier later : SyntaxError) : Prop where
  once : later.unread.length = earlier.unread.length → later.unread = []
  rising : earlier.cause.isPanic → later.cause.isPanic →
    later.unread.length ≤ earlier.unread.length

theorem Apart.both_at_end {earlier later : SyntaxError} (h : Apart earlier later)
    (hlength : later.unread.length = earlier.unread.length) :
    earlier.unread = [] ∧ later.unread = [] := by
  have hend := h.once hlength
  rw [hend, List.length_nil] at hlength
  exact ⟨List.eq_nil_of_length_eq_zero hlength.symm, hend⟩

/-- Mistakes found from `tokens` to `rest`, which is behind them unless both are the end. -/
structure Blamed (tokens rest : List Token) (errors : List SyntaxError) : Prop where
  suffix : rest <:+ tokens
  inside : ∀ error ∈ errors, error.unread <:+ tokens
  behind : ∀ error ∈ errors, rest.length < error.unread.length ∨ error.unread = [] ∧ rest = []
  apart : errors.Pairwise Apart

variable {tokens middle rest : List Token} {errors errors' : List SyntaxError}

theorem blamed_nil (h : rest <:+ tokens) : Blamed tokens rest [] :=
  ⟨h, by simp, by simp, .nil⟩

theorem Blamed.append (h : Blamed tokens middle errors) (h' : Blamed middle rest errors') :
    Blamed tokens rest (errors ++ errors') where
  suffix := h'.suffix.trans h.suffix
  inside := by
    intro error hmem
    rcases List.mem_append.mp hmem with hmem | hmem
    · exact h.inside error hmem
    · exact (h'.inside error hmem).trans h.suffix
  behind := by
    intro error hmem
    rcases List.mem_append.mp hmem with hmem | hmem
    · rcases h.behind error hmem with hlt | ⟨hunread, rfl⟩
      · exact .inl (Nat.lt_of_le_of_lt h'.suffix.length_le hlt)
      · exact .inr ⟨hunread, List.suffix_nil.mp h'.suffix⟩
    · exact h'.behind error hmem
  apart := by
    refine List.pairwise_append.mpr ⟨h.apart, h'.apart, ?_⟩
    intro earlier hearlier later hlater
    have hinside := h'.inside later hlater
    have hle := hinside.length_le
    -- Either the earlier mistake is behind what is left for the later one, or both are at the end.
    rcases h.behind earlier hearlier with hlt | ⟨-, rfl⟩
    · constructor <;> intros <;> omega
    · have hend := List.suffix_nil.mp hinside
      exact ⟨fun _ => hend, fun _ _ => by simp [hend]⟩

theorem blamed_of_targets (h : Targets tokens rest errors) : Blamed tokens rest errors where
  suffix := h.suffix
  inside := by
    intro error hmem
    obtain ⟨_, _, -, -, hinside, -⟩ := h.place error hmem
    exact hinside
  behind := fun error hmem => .inl (h.length_lt hmem)
  apart := by
    refine h.distinct.imp_of_mem ?_
    intro earlier later hearlier _ hlengths
    refine ⟨fun heq => absurd heq.symm hlengths, fun hpanic => ?_⟩
    rw [h.cause earlier hearlier] at hpanic
    cases hpanic

theorem blamed_recover (cause : SyntaxError.Cause) (tokens : List Token) :
    Blamed tokens (recover tokens) [⟨cause, tokens⟩] where
  suffix := recover_suffix tokens
  inside := by simp
  behind := by
    intro error hmem
    obtain rfl := List.mem_singleton.mp hmem
    cases tokens with
    | nil => exact .inr ⟨rfl, rfl⟩
    | cons token more =>
        have hlength := recover_length (token :: more)
        simp only [List.length_cons] at hlength ⊢
        omega
  apart := List.pairwise_singleton _ _

theorem blamed_declared {n : Nat} {reply : Reply Stmt (n + 1)} (placed : reply.Placed tokens) :
    Blamed tokens reply.declared.1.rest reply.declared.1.errors := by
  cases reply with
  | accepted value rest errors shorter => exact blamed_of_targets placed
  | refused rest errors notLonger =>
      obtain ⟨earlier, cause, rfl, -, htargets⟩ := placed
      exact (blamed_of_targets htargets).append (blamed_recover cause rest)

theorem rest_readBlock_of_refused (tokens : List Token)
    (h : (Stmt.readBlock tokens).value? = none) : (Stmt.readBlock tokens).rest = [] := by
  match tokens with
  | [] =>
      rw [Stmt.readBlock]
      rfl
  | token :: more =>
      have shorter := (Stmt.readDeclaration token more).2
      rw [Stmt.readBlock] at h ⊢
      split
      next hclosing =>
        rw [if_pos hclosing] at h
        cases h
      next hclosing =>
        rw [if_neg hclosing, value?_widen, value?_after, value?_map, Option.map_eq_none_iff] at h
        rw [rest_widen, rest_after, rest_map]
        exact rest_readBlock_of_refused _ h
termination_by tokens.length

theorem rest_declared_block (tokens : List Token) :
    ((Stmt.readBlock tokens).map Stmt.block).loosen.declared.1.rest =
      (Stmt.readBlock tokens).rest := by
  have hrefused := rest_readBlock_of_refused tokens
  cases hreply : Stmt.readBlock tokens with
  | accepted body rest errors shorter => rfl
  | refused rest errors notLonger =>
      rw [hreply] at hrefused
      obtain rfl : rest = [] := hrefused rfl
      rfl

mutual

theorem readDeclaration_blamed (token : Token) (tokens : List Token) :
    Blamed (token :: tokens) (Stmt.readDeclaration token tokens).1.rest
      (Stmt.readDeclaration token tokens).1.errors := by
  by_cases hbrace : token.kind = .leftBrace
  · rw [Stmt.readDeclaration_of_leftBrace hbrace, rest_declared_block, errors_declared,
      Reply.loosen, errors_widen, errors_map]
    exact (blamed_nil (List.suffix_cons _ _)).append (readBlock_blamed tokens)
  · rw [Stmt.readDeclaration_eq_readSimple hbrace]
    exact blamed_declared (Stmt.readSimple_placed token tokens)
termination_by (tokens.length, 1)

theorem readBlock_blamed (tokens : List Token) :
    Blamed tokens (Stmt.readBlock tokens).rest (Stmt.readBlock tokens).errors := by
  match tokens with
  | [] =>
      rw [Stmt.readBlock]
      exact blamed_recover .closingBrace []
  | token :: more =>
      have shorter := (Stmt.readDeclaration token more).2
      rw [Stmt.readBlock]
      split
      · exact blamed_nil (List.suffix_cons _ _)
      · rw [rest_widen, rest_after, rest_map, errors_widen, errors_after, errors_map]
        exact (readDeclaration_blamed token more).append (readBlock_blamed _)
termination_by (tokens.length, 0)

end

theorem readDeclarations_blamed (tokens : List Token) :
    Blamed tokens [] ((Stmt.readDeclarations tokens).flatMap Declared.errors) := by
  match tokens with
  | [] =>
      rw [Stmt.readDeclarations]
      exact blamed_nil (List.suffix_refl _)
  | token :: more =>
      have shorter := (Stmt.readDeclaration token more).2
      rw [Stmt.readDeclarations, List.flatMap_cons]
      exact (readDeclaration_blamed token more).append (readDeclarations_blamed _)
termination_by tokens.length

/-! ## How often the end is blamed -/

def blamesOfEnd (errors : List SyntaxError) : Nat :=
  errors.countP (·.unread.isEmpty)

def openings (tokens : List Token) : Nat :=
  tokens.countP (·.kind = .leftBrace)

theorem openings_cons (token : Token) (tokens : List Token) :
    openings (token :: tokens) = openings tokens + if token.kind = .leftBrace then 1 else 0 := by
  simp [openings, List.countP_cons]

theorem openings_le (h : rest <:+ tokens) : openings rest ≤ openings tokens :=
  h.sublist.countP_le

theorem blamesOfEnd_append (errors errors' : List SyntaxError) :
    blamesOfEnd (errors ++ errors') = blamesOfEnd errors + blamesOfEnd errors' :=
  List.countP_append

theorem Blamed.blamesOfEnd_eq_zero (h : Blamed tokens rest errors) (hrest : rest ≠ []) :
    blamesOfEnd errors = 0 := by
  rw [blamesOfEnd, List.countP_eq_zero]
  intro error hmem hunread
  rcases h.behind error hmem with hlt | ⟨-, hend⟩
  · simp [List.isEmpty_iff.mp hunread] at hlt
  · exact hrest hend

theorem blamesOfEnd_targets (h : Targets tokens rest errors) : blamesOfEnd errors = 0 := by
  rw [blamesOfEnd, List.countP_eq_zero]
  intro error hmem
  obtain ⟨_, _, hunread, -⟩ := h.place error hmem
  simp [hunread]

theorem blamesOfEnd_placed {α : Type} {n : Nat} {reply : Reply α n} (placed : reply.Placed tokens) :
    blamesOfEnd reply.errors ≤ 1 := by
  cases reply with
  | accepted value rest errors shorter =>
      have hzero : blamesOfEnd errors = 0 := blamesOfEnd_targets placed
      simp only [Reply.errors]
      omega
  | refused rest errors notLonger =>
      obtain ⟨earlier, cause, rfl, -, htargets⟩ := placed
      have hzero := blamesOfEnd_targets htargets
      have hlast : blamesOfEnd [⟨cause, rest⟩] ≤ 1 := List.countP_le_length
      simp only [Reply.errors, blamesOfEnd_append]
      omega

mutual

theorem blamesOfEnd_declaration_le (token : Token) (tokens : List Token) :
    blamesOfEnd (Stmt.readDeclaration token tokens).1.errors ≤ 1 + openings (token :: tokens) := by
  have hopenings := openings_cons token tokens
  by_cases hbrace : token.kind = .leftBrace
  · rw [Stmt.readDeclaration_of_leftBrace hbrace, errors_declared, Reply.loosen, errors_widen,
      errors_map]
    have hblock := blamesOfEnd_block_le tokens
    rw [if_pos hbrace] at hopenings
    omega
  · rw [Stmt.readDeclaration_eq_readSimple hbrace, errors_declared]
    have hone := blamesOfEnd_placed (Stmt.readSimple_placed token tokens)
    omega
termination_by (tokens.length, 1)

theorem blamesOfEnd_block_le (tokens : List Token) :
    blamesOfEnd (Stmt.readBlock tokens).errors ≤ 2 + openings tokens := by
  match tokens with
  | [] =>
      rw [Stmt.readBlock]
      decide
  | token :: more =>
      have shorter := (Stmt.readDeclaration token more).2
      rw [Stmt.readBlock]
      split
      · exact Nat.zero_le _
      · have hblamed := readDeclaration_blamed token more
        have hfirst := blamesOfEnd_declaration_le token more
        rw [errors_widen, errors_after, errors_map, blamesOfEnd_append]
        by_cases hend : (Stmt.readDeclaration token more).1.rest = []
        -- Only a declaration that reaches the end can blame it, and then the block is not closed.
        · have hclosing : blamesOfEnd (Stmt.readBlock []).errors = 1 := by
            rw [Stmt.readBlock]
            rfl
          rw [hend, hclosing]
          omega
        · have hothers := blamesOfEnd_block_le (Stmt.readDeclaration token more).1.rest
          have hopenings := openings_le hblamed.suffix
          rw [hblamed.blamesOfEnd_eq_zero hend]
          omega
termination_by (tokens.length, 0)

end

theorem blamesOfEnd_declarations_le (tokens : List Token) :
    blamesOfEnd ((Stmt.readDeclarations tokens).flatMap Declared.errors) ≤ 1 + openings tokens := by
  match tokens with
  | [] =>
      rw [Stmt.readDeclarations]
      exact Nat.zero_le _
  | token :: more =>
      have shorter := (Stmt.readDeclaration token more).2
      have hblamed := readDeclaration_blamed token more
      have hfirst := blamesOfEnd_declaration_le token more
      rw [Stmt.readDeclarations, List.flatMap_cons, blamesOfEnd_append]
      by_cases hend : (Stmt.readDeclaration token more).1.rest = []
      · rw [hend, Stmt.readDeclarations]
        exact hfirst
      · have hothers := blamesOfEnd_declarations_le (Stmt.readDeclaration token more).1.rest
        have hopenings := openings_le hblamed.suffix
        rw [hblamed.blamesOfEnd_eq_zero hend]
        omega
termination_by tokens.length

/-! ## The calls and the mistakes of a text -/

mutual

theorem suffix_of_mem_callsFor {call : Call} (token : Token) (tokens : List Token)
    (h : call ∈ callsFor token tokens) : call.tokens <:+ token :: tokens := by
  rw [callsFor] at h
  rcases List.mem_append.mp h with h | h
  · split at h
    · exact (suffix_of_mem_callsInBlock tokens h).trans (List.suffix_cons _ _)
    · cases h
  · obtain rfl := List.mem_singleton.mp h
    exact List.suffix_refl _
termination_by (tokens.length, 1)

theorem suffix_of_mem_callsInBlock {call : Call} (tokens : List Token)
    (h : call ∈ callsInBlock tokens) : call.tokens <:+ tokens := by
  match tokens, h with
  | [], h =>
      rw [callsInBlock] at h
      cases h
  | token :: more, h =>
      have shorter := (Stmt.readDeclaration token more).2
      rw [callsInBlock] at h
      split at h
      · cases h
      · rcases List.mem_append.mp h with h | h
        · exact suffix_of_mem_callsFor token more h
        · exact (suffix_of_mem_callsInBlock _ h).trans (readDeclaration_blamed token more).suffix
termination_by (tokens.length, 0)

end

theorem suffix_of_mem_callsIn {call : Call} {tokens : List Token} (h : call ∈ callsIn tokens) :
    call.tokens <:+ tokens := by
  match tokens, h with
  | [], h =>
      rw [callsIn] at h
      cases h
  | token :: more, h =>
      have shorter := (Stmt.readDeclaration token more).2
      rw [callsIn] at h
      rcases List.mem_append.mp h with h | h
      · exact suffix_of_mem_callsFor token more h
      · exact (suffix_of_mem_callsIn h).trans (readDeclaration_blamed token more).suffix
termination_by tokens.length

def mistakesIn (text : TokenText) : List SyntaxError :=
  (callsIn text.body).flatMap Call.own

theorem mistakesIn_eq (text : TokenText) :
    mistakesIn text = (Stmt.readDeclarations text.body).flatMap Declared.errors :=
  flatMap_own_callsIn text.body

theorem mistakesIn_blamed (text : TokenText) : Blamed text.body [] (mistakesIn text) := by
  rw [mistakesIn_eq]
  exact readDeclarations_blamed text.body

theorem diagnostics_program (text : TokenText) :
    text.program.diagnostics = text.diagnostics (mistakesIn text) := by
  rw [mistakesIn_eq, TokenText.program]

/-- The mistakes of a text are those of its calls: a panic for each call that drops its
declaration, and at each token but the end no more than one. -/
structure Accounted (text : TokenText) : Prop where
  calls : ∀ call ∈ callsIn text.body, call.tokens <:+ text.body
  reported : text.program.diagnostics = text.diagnostics (mistakesIn text)
  counted : text.program.diagnostics.countP (·.message ≠ "Invalid assignment target.") =
    (callsIn text.body).countP (·.declared.node.isNone)
  consumed : ∀ call ∈ callsIn text.body, ∀ node, call.declared.node = some node →
    call.declared.errors = [] →
    ∃ d : Grammar.Derivation (.symbol .declaration),
      d.tree = node ∧ call.tokens = d.yield ++ call.declared.rest
  inside : ∀ mistake ∈ mistakesIn text, mistake.unread <:+ text.body
  rising : (mistakesIn text).Pairwise fun earlier later =>
    earlier.cause.message ≠ "Invalid assignment target." →
    later.cause.message ≠ "Invalid assignment target." →
    text.position earlier.unread < text.position later.unread ∨
      earlier.unread = [] ∧ later.unread = []
  ending : (mistakesIn text).countP (·.unread.isEmpty) ≤
    1 + text.body.countP (·.kind = .leftBrace)
  targets : ∀ mistake ∈ mistakesIn text,
    mistake.cause.message = "Invalid assignment target." →
    ∃ call ∈ callsIn text.body, mistake ∈ call.own ∧
      ∃ equals more, mistake.unread = equals :: more ∧ equals.kind = .equal ∧
        call.declared.rest <:+ more ∧
        ∀ panic ∈ call.own, panic.cause.message ≠ "Invalid assignment target." →
          panic.unread <:+ more
  once : (mistakesIn text).Pairwise fun earlier later =>
    text.position earlier.unread = text.position later.unread →
      earlier.unread = [] ∧ later.unread = []

/--
In a token list with an end token the diagnostics other than for wrong targets are as
many as the calls that return no declaration, and no token but the end is blamed twice.
-/
theorem mistakes_accounted {tokens : List Token} (h : ∃ token ∈ tokens, token.kind = .eof) :
    ∃ text, TokenText.ofList? tokens = some text ∧
      text.body = tokens.takeWhile (·.kind ≠ .eof) ∧ Accounted text := by
  obtain ⟨text, htext, hbody⟩ := TokenText.exists_ofList h
  have hblamed := mistakesIn_blamed text
  refine ⟨text, htext, hbody, ?_⟩
  constructor
  case calls => exact fun call => suffix_of_mem_callsIn
  case reported => exact diagnostics_program text
  case counted => rw [diagnostics_program, countP_diagnostics, mistakesIn, countP_flatMap_own]
  case consumed =>
    intro call _ node hnode herrors
    obtain ⟨d, htree, hyield, -⟩ :=
      (Stmt.readDeclaration_clean_iff call.token call.behind).mp ⟨hnode, rfl, herrors⟩
    exact ⟨d, htree, hyield⟩
  case inside => exact hblamed.inside
  case rising =>
    refine hblamed.apart.imp_of_mem ?_
    intro earlier later hearlier hlater hapart hpanic hpanic'
    have hle := hapart.rising (SyntaxError.Cause.isPanic_iff.mpr hpanic)
      (SyntaxError.Cause.isPanic_iff.mpr hpanic')
    have hinside := (hblamed.inside earlier hearlier).length_le
    simp only [TokenText.position]
    rcases Nat.lt_or_eq_of_le hle with hlt | heq
    · omega
    · exact .inr (hapart.both_at_end heq)
  case ending =>
    have hle := blamesOfEnd_declarations_le text.body
    rwa [← mistakesIn_eq] at hle
  case targets =>
    intro mistake hmem hmessage
    obtain ⟨call, hcall, hown⟩ := List.mem_flatMap.mp hmem
    have hcause : mistake.cause = .assignmentTarget := by
      have hpanic := mt SyntaxError.Cause.isPanic_iff.mp (not_not.mpr hmessage)
      simpa [SyntaxError.Cause.isPanic] using hpanic
    obtain ⟨equals, more, hunread, hkind, hrest, hpanics⟩ := Call.target_of_own hown hcause
    refine ⟨call, hcall, hown, equals, more, hunread, hkind, hrest, ?_⟩
    exact fun panic hmem hpanic => hpanics panic hmem (SyntaxError.Cause.isPanic_iff.mpr hpanic)
  case once =>
    refine hblamed.apart.imp_of_mem ?_
    intro earlier later hearlier hlater hapart hposition
    have hinside := (hblamed.inside earlier hearlier).length_le
    have hinside' := (hblamed.inside later hlater).length_le
    simp only [TokenText.position] at hposition
    exact hapart.both_at_end (by omega)

/-- `{ nil = nil ; (`, where two of three calls return no declaration. -/
def openTokens : List Token :=
  [.bare .leftBrace "\x7b" 1, .bare .wordNil "nil" 1, .bare .equal "=" 1, .bare .wordNil "nil" 1,
    .bare .semicolon ";" 1, .bare .leftParen "(" 1, .ending 1]

theorem mistakes_accounted_open :
    (∃ token ∈ openTokens, token.kind = .eof) ∧
      ∃ text, TokenText.ofList? openTokens = some text ∧ Accounted text ∧
        (callsIn text.body).countP (·.declared.node.isNone) = 2 := by
  have hend : ∃ token ∈ openTokens, token.kind = .eof := ⟨.ending 1, by decide, rfl⟩
  obtain ⟨text, htext, -, haccounted⟩ := mistakes_accounted hend
  obtain rfl := Option.some.inj (htext.symm.trans rfl)
  refine ⟨hend, _, htext, haccounted, ?_⟩
  rw [← haccounted.counted]
  cbv

end LoxLang.Recovery
