import LoxLang.Proofs.Syntax.Placement
import LoxLang.Proofs.Syntax.Programs
import LoxLang.Proofs.Syntax.WellFormed

/-!
# Leading expressions

The expression at the start of a text is read as far as it goes: it ends in front of
the first token with which no expression goes on.
-/

namespace LoxLang

open Grammar Reply

namespace TokenText

theorem position_le (text : TokenText) (rest : List Token) :
    text.position rest ≤ text.body.length :=
  Nat.sub_le _ _

theorem getElem?_position {text : TokenText} {rest : List Token} (h : rest <:+ text.body)
    (behind : List Token) :
    (text.body ++ text.ending :: behind)[text.position rest]? = some (rest.headD text.ending) := by
  obtain ⟨front, hbody⟩ := h
  have hposition : text.position rest = front.length := by
    simp [position, ← hbody]
  rw [hposition, ← hbody, List.append_assoc, List.getElem?_append_right (Nat.le_refl _)]
  cases rest <;> simp

theorem diagnostics_eq_nil_iff {text : TokenText} {errors : List SyntaxError} :
    text.diagnostics errors = [] ↔ errors = [] :=
  List.map_eq_nil_iff

end TokenText

namespace LeadingExpr

theorem ofText_clean_iff (text : TokenText) (node : Expr) (position : Nat) :
    ((ofText text).node = some node ∧ (ofText text).position = position ∧
        (ofText text).diagnostics = []) ↔
      position ≤ text.body.length ∧ ∃ d : Derivation (phrase .expression), d.tree = node ∧
        d.yield = text.body.take position ∧
        Avoids (Phrase.continuations .expression) (text.body.drop position) := by
  constructor
  · rintro ⟨hnode, rfl, hdiagnostics⟩
    have hclean : (Expr.read text.body).Clean node (Expr.read text.body).rest :=
      ⟨hnode, rfl, TokenText.diagnostics_eq_nil_iff.mp hdiagnostics⟩
    obtain ⟨d, htree, hbody, havoids⟩ := parses_expression_iff.mpr ((Expr.read_clean_iff _).mp hclean)
    have hposition : (ofText text).position = d.yield.length := by
      have hlength := congrArg List.length hbody
      rw [List.length_append] at hlength
      simp only [ofText, TokenText.position]
      omega
    refine ⟨TokenText.position_le _ _, d, htree, ?_, ?_⟩
    · rw [hposition]
      exact (List.prefix_iff_eq_take.mp ⟨_, hbody.symm⟩)
    · have hrest : (d.yield ++ (Expr.read text.body).rest).drop d.yield.length =
          (Expr.read text.body).rest := List.drop_left
      rw [← hbody] at hrest
      rw [hposition, hrest]
      exact havoids
  · rintro ⟨hposition, d, htree, hyield, havoids⟩
    have hbody : text.body = d.yield ++ text.body.drop position := by
      rw [hyield, List.take_append_drop]
    obtain ⟨hnode, hrest, herrors⟩ :=
      (Expr.read_clean_iff text.body).mpr
        (parses_expression_iff.mp ⟨d, htree, hbody, havoids⟩)
    refine ⟨hnode, ?_, TokenText.diagnostics_eq_nil_iff.mpr herrors⟩
    simp only [ofText, TokenText.position, hrest, List.length_drop]
    omega

theorem ofSource_unary {source : String} {tokens : List Token} {ending : Token} {node : Expr}
    (hscan : scan source = ⟨⟨tokens, ending⟩, []⟩) (h : ParsesPhrase .unary tokens node []) :
    ofSource source = ⟨some node, tokens.length, []⟩ := by
  obtain ⟨hnode, hrest, herrors⟩ := (Expr.read_clean_iff tokens).mpr
    (parses_assignment_iff.mpr (.inl ⟨h.equality (avoids_nil _), avoids_nil _⟩))
  rw [ofSource, hscan]
  simp [ofText, hnode, hrest, herrors, TokenText.position, TokenText.diagnostics]

theorem ofText_refused (text : TokenText) (h : (ofText text).node = none) :
    ∃ earlier rest, ∃ cause : SyntaxError.Cause, rest <:+ text.body ∧
      (ofText text).position = text.position rest ∧ (ofText text).diagnostics =
        text.diagnostics earlier ++ [.atToken (rest.headD text.ending) cause.message] ∧
      cause.isPanic ∧ ∀ error ∈ earlier, error.cause = .assignmentTarget := by
  have hplaced := Expr.read_placed text.body
  simp only [ofText] at h ⊢
  cases hreply : Expr.read text.body with
  | accepted value rest errors shorter =>
      rw [hreply] at h
      cases h
  | refused rest errors notLonger =>
      rw [hreply] at hplaced
      obtain ⟨earlier, cause, rfl, hcause, htargets⟩ := hplaced
      refine ⟨earlier, rest, cause, htargets.suffix, rfl, ?_, hcause, htargets.cause⟩
      simp [TokenText.diagnostics, SyntaxError.diagnostic, Reply.errors]

theorem avoids_drop_iff {text : TokenText} {kinds : List TokenKind} {position : Nat}
    (hending : text.ending.kind ∉ kinds) (hposition : position ≤ text.body.length)
    (behind : List Token) :
    Avoids kinds (text.body.drop position) ↔
      ∃ token, (text.body ++ text.ending :: behind)[position]? = some token ∧
        token.kind ∉ kinds := by
  have htoken := TokenText.getElem?_position (text.body.drop_suffix position) behind
  have hlength : text.position (text.body.drop position) = position := by
    simp only [TokenText.position, List.length_drop]
    omega
  rw [hlength] at htoken
  simp only [htoken, Option.some.injEq, exists_eq_left']
  cases text.body.drop position with
  | nil => simpa using hending
  | cons token more => simp

/--
In a token list with an end token, an expression without a mistake is read exactly up
to a position in front of which the tokens derive it, and at which no operator stands
that an expression can go on with.  If there is none, one mistake that is no wrong
target has been reported, at the token where reading has stopped.
-/
theorem leading_expression_is_maximal {tokens : List Token}
    (h : ∃ token ∈ tokens, token.kind = .eof) :
    ∃ leading, ofTokens? tokens = some leading ∧
      (∀ node position,
        (leading.node = some node ∧ leading.position = position ∧ leading.diagnostics = []) ↔
          position ≤ (tokens.takeWhile (·.kind ≠ .eof)).length ∧
          (∃ d : Derivation (phrase .expression),
            d.tree = node ∧ d.yield = tokens.take position) ∧
          ∃ token, tokens[position]? = some token ∧ token.kind ∉ .equal :: binaryOperators) ∧
      (leading.node = none →
        ∃ earlier token message,
          leading.diagnostics = earlier ++ [.atToken token message] ∧
          tokens[leading.position]? = some token ∧
          message ≠ "Invalid assignment target." ∧
          ∀ diagnostic ∈ earlier, diagnostic.message = "Invalid assignment target.") := by
  obtain ⟨text, htext, -⟩ := TokenText.exists_ofList h
  obtain ⟨hbody, hending, behind, htokens⟩ := TokenText.exists_behind htext
  have hleading : ofTokens? tokens = some (ofText text) := by
    rw [ofTokens?, htext]
  have hstop : text.ending.kind ∉ .equal :: binaryOperators := by
    rw [hending]
    decide
  refine ⟨ofText text, hleading, ?_, ?_⟩
  · intro node position
    rw [ofText_clean_iff, ← hbody, htokens]
    constructor
    · rintro ⟨hposition, d, htree, hyield, havoids⟩
      rw [List.take_append_of_le_length hposition]
      exact ⟨hposition, ⟨d, htree, hyield⟩, (avoids_drop_iff hstop hposition behind).mp havoids⟩
    · rintro ⟨hposition, ⟨d, htree, hyield⟩, htoken⟩
      rw [List.take_append_of_le_length hposition] at hyield
      exact ⟨hposition, d, htree, hyield, (avoids_drop_iff hstop hposition behind).mpr htoken⟩
  · intro hnone
    obtain ⟨earlier, rest, cause, hsuffix, hposition, hdiagnostics, hcause, hearlier⟩ :=
      ofText_refused text hnone
    refine ⟨_, _, _, hdiagnostics, ?_, ?_, ?_⟩
    · rw [hposition, htokens]
      exact TokenText.getElem?_position hsuffix behind
    · exact SyntaxError.Cause.isPanic_iff.mp hcause
    · intro diagnostic hmem
      obtain ⟨error, herror, rfl⟩ := List.mem_map.mp hmem
      simp [SyntaxError.diagnostic, Diagnostic.atToken, hearlier error herror,
        SyntaxError.Cause.message]

/-- `a = ( b ) nil`, where the assignment ends in front of the last word. -/
def assignmentTokens : List Token :=
  [.bare .identifier "a" 1, .bare .equal "=" 1, .bare .leftParen "(" 1,
    .bare .identifier "b" 1, .bare .rightParen ")" 1, .bare .wordNil "nil" 1, .ending 1]

/-- `a = ( ;`, which is given up at the semicolon. -/
def unclosedTokens : List Token :=
  [.bare .identifier "a" 1, .bare .equal "=" 1, .bare .leftParen "(" 1,
    .bare .semicolon ";" 1, .ending 1]

theorem leading_expression_is_maximal_assignment :
    (∃ token ∈ assignmentTokens, token.kind = .eof) ∧
      (∃ d : Derivation (phrase .expression),
        d.tree = .assign (.bare .identifier "a" 1)
          (.grouping (.reference (.bare .identifier "b" 1))) ∧
        d.yield = assignmentTokens.take 5) ∧
      (∃ token ∈ unclosedTokens, token.kind = .eof) ∧
      ∃ leading, ofTokens? unclosedTokens = some leading ∧ leading.node = none ∧
        ∃ earlier message,
          leading.diagnostics = earlier ++ [.atToken (.bare .semicolon ";" 1) message] ∧
          message ≠ "Invalid assignment target." := by
  have hend : ∃ token ∈ assignmentTokens, token.kind = .eof := ⟨.ending 1, by decide, rfl⟩
  have hend' : ∃ token ∈ unclosedTokens, token.kind = .eof := ⟨.ending 1, by decide, rfl⟩
  obtain ⟨leading, hleading, hmaximal, -⟩ := leading_expression_is_maximal hend
  obtain ⟨leading', hleading', -, hrefused⟩ := leading_expression_is_maximal hend'
  obtain rfl := Option.some.inj (hleading.symm.trans rfl)
  have hread : ofTokens? unclosedTokens = some (ofText ⟨unclosedTokens.take 4, .ending 1⟩) := rfl
  obtain rfl := Option.some.inj (hleading'.symm.trans hread)
  have hderived := (hmaximal (.assign (.bare .identifier "a" 1)
    (.grouping (.reference (.bare .identifier "b" 1)))) 5).mp ⟨by cbv, by cbv, by cbv⟩
  have hnone : (ofText ⟨unclosedTokens.take 4, .ending 1⟩).node = none := by cbv
  have hposition : (ofText ⟨unclosedTokens.take 4, .ending 1⟩).position = 3 := by cbv
  obtain ⟨earlier, token, message, hdiagnostics, htoken, hmessage, -⟩ := hrefused hnone
  obtain rfl : Token.bare .semicolon ";" 1 = token := by
    rw [hposition] at htoken
    exact Option.some.inj htoken
  exact ⟨hend, hderived.2.1, hend', _, hleading', hnone, earlier, message, hdiagnostics, hmessage⟩

end LeadingExpr

end LoxLang
