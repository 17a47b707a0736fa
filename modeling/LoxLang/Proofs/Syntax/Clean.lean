import LoxLang.Syntax.Reply

/-!
# Clean answers

An answer is clean when it accepts and reports nothing.  How a clean answer comes
about is stated once for each way of combining rules, as an equivalence, so that
the same lemmas serve for what a rule accepts and for what it must accept.
-/

namespace LoxLang.Reply

variable {α β : Type} {m n : Nat}

/-- The rule accepts without an error and stops in front of `rest`. -/
def Clean (reply : Reply α n) (value : α) (rest : List Token) : Prop :=
  reply.value? = some value ∧ reply.rest = rest ∧ reply.errors = []

/-- No rule refuses in silence. -/
def Explained (reply : Reply α n) : Prop :=
  reply.errors = [] → ∃ value, reply.Clean value reply.rest

theorem Clean.shorter {reply : Reply α n} {value : α} {rest : List Token}
    (h : reply.Clean value rest) : rest.length < n := by
  obtain ⟨hvalue, rfl, -⟩ := h
  cases reply with
  | accepted value rest errors shorter => exact shorter
  | refused => cases hvalue

theorem Clean.unique {reply : Reply α n} {value value' : α} {rest rest' : List Token}
    (h : reply.Clean value rest) (h' : reply.Clean value' rest') :
    value = value' ∧ rest = rest' := by
  obtain ⟨hvalue, rfl, -⟩ := h
  obtain ⟨hvalue', rfl, -⟩ := h'
  exact ⟨Option.some.inj (hvalue.symm.trans hvalue'), rfl⟩

@[simp] theorem clean_accepted {value value' : α} {rest rest' : List Token}
    {errors : List SyntaxError} {shorter : rest.length < n} :
    (accepted value rest errors shorter : Reply α n).Clean value' rest' ↔
      value = value' ∧ rest = rest' ∧ errors = [] := by
  simp [Clean, value?, Reply.rest, Reply.errors]

@[simp] theorem not_clean_refused {value : α} {rest rest' : List Token}
    {errors : List SyntaxError} {notLonger : rest.length ≤ n} :
    ¬ (refused rest errors notLonger : Reply α n).Clean value rest' := by
  simp [Clean, value?]

@[simp] theorem clean_done {value value' : α} {rest rest' : List Token}
    {errors : List SyntaxError} :
    (done value rest errors).Clean value' rest' ↔
      value = value' ∧ rest = rest' ∧ errors = [] :=
  clean_accepted

@[simp] theorem not_clean_blame {cause : SyntaxError.Cause} {tokens : List Token} {value : α}
    {rest : List Token} : ¬ (blame cause tokens : Reply α tokens.length).Clean value rest :=
  not_clean_refused

@[simp] theorem clean_widen {reply : Reply α m} {h : m ≤ n} {value : α} {rest : List Token} :
    (reply.widen h).Clean value rest ↔ reply.Clean value rest := by
  simp [Clean]

@[simp] theorem clean_loosen {reply : Reply α n} {value : α} {rest : List Token} :
    reply.loosen.Clean value rest ↔ reply.Clean value rest :=
  clean_widen

@[simp] theorem clean_after {earlier : List SyntaxError} {reply : Reply α n} {value : α}
    {rest : List Token} :
    (reply.after earlier).Clean value rest ↔ earlier = [] ∧ reply.Clean value rest := by
  simp only [Clean, value?_after, rest_after, errors_after, List.append_eq_nil_iff]
  constructor
  · rintro ⟨hvalue, hrest, hearlier, herrors⟩
    exact ⟨hearlier, hvalue, hrest, herrors⟩
  · rintro ⟨hearlier, hvalue, hrest, herrors⟩
    exact ⟨hvalue, hrest, hearlier, herrors⟩

@[simp] theorem clean_map {f : α → β} {reply : Reply α n} {value : β} {rest : List Token} :
    (reply.map f).Clean value rest ↔ ∃ given, reply.Clean given rest ∧ f given = value := by
  simp only [Clean, value?_map, rest_map, errors_map, Option.map_eq_some_iff]
  constructor
  · rintro ⟨⟨given, hgiven, hvalue⟩, hrest, herrors⟩
    exact ⟨given, ⟨hgiven, hrest, herrors⟩, hvalue⟩
  · rintro ⟨given, ⟨hgiven, hrest, herrors⟩, hvalue⟩
    exact ⟨⟨given, hgiven, hvalue⟩, hrest, herrors⟩

theorem clean_andThen {reply : Reply α n}
    {next : (value : α) → (rest : List Token) → rest.length < n → Reply β (rest.length + 1)}
    {value : β} {rest : List Token} :
    (reply.andThen next).Clean value rest ↔
      ∃ given middle, ∃ shorter : middle.length < n,
        reply.Clean given middle ∧ (next given middle shorter).Clean value rest := by
  cases reply with
  | accepted given middle errors shorter =>
      simp only [andThen, clean_after, clean_widen, clean_accepted]
      constructor
      · rintro ⟨herrors, hnext⟩
        exact ⟨given, middle, shorter, ⟨rfl, rfl, herrors⟩, hnext⟩
      · rintro ⟨_, _, _, ⟨rfl, rfl, herrors⟩, hnext⟩
        exact ⟨herrors, hnext⟩
  | refused middle errors notLonger =>
      simp [andThen]

@[simp] theorem clean_expect {kind : TokenKind} {cause : SyntaxError.Cause}
    {tokens : List Token} {token : Token} {rest : List Token} :
    (expect kind cause tokens).Clean token rest ↔
      tokens = token :: rest ∧ token.kind = kind := by
  cases tokens with
  | nil => simp [expect]
  | cons first more =>
      simp only [expect]
      split
      next h =>
        simp only [clean_done, List.cons.injEq, and_true]
        constructor
        · rintro ⟨rfl, rfl⟩
          exact ⟨⟨rfl, rfl⟩, h⟩
        · rintro ⟨⟨rfl, rfl⟩, -⟩
          exact ⟨rfl, rfl⟩
      next h =>
        simp only [not_clean_blame, List.cons.injEq, false_iff, not_and]
        rintro ⟨rfl, rfl⟩
        exact h

/-! ## No refusal without an error -/

theorem explained_iff {reply : Reply α n} :
    reply.Explained ↔ (reply.value? = none → reply.errors ≠ []) := by
  cases reply with
  | accepted value rest errors shorter =>
      constructor
      · rintro - ⟨⟩
      · intro _ herrors
        exact ⟨value, rfl, rfl, herrors⟩
  | refused rest errors notLonger =>
      constructor
      · intro h _ herrors
        obtain ⟨value, hvalue, -⟩ := h herrors
        cases hvalue
      · intro h herrors
        exact absurd herrors (h rfl)

theorem explained_done {value : α} {rest : List Token} {errors : List SyntaxError} :
    (done value rest errors).Explained :=
  fun herrors => ⟨value, rfl, rfl, herrors⟩

theorem explained_blame {cause : SyntaxError.Cause} {tokens : List Token} :
    (blame cause tokens : Reply α tokens.length).Explained := by
  intro herrors
  cases herrors

theorem Explained.widen {reply : Reply α m} (h : m ≤ n) (explained : reply.Explained) :
    (reply.widen h).Explained := by
  simpa [explained_iff] using explained_iff.mp explained

theorem Explained.loosen {reply : Reply α n} (explained : reply.Explained) :
    reply.loosen.Explained :=
  explained.widen _

theorem Explained.after {reply : Reply α n} (earlier : List SyntaxError)
    (explained : reply.Explained) : (reply.after earlier).Explained := by
  rw [explained_iff] at explained ⊢
  intro hvalue herrors
  rw [errors_after, List.append_eq_nil_iff] at herrors
  rw [value?_after] at hvalue
  exact explained hvalue herrors.2

theorem Explained.map {reply : Reply α n} (f : α → β) (explained : reply.Explained) :
    (reply.map f).Explained := by
  rw [explained_iff] at explained ⊢
  rw [value?_map, errors_map, Option.map_eq_none_iff]
  exact explained

theorem Explained.andThen {reply : Reply α n}
    {next : (value : α) → (rest : List Token) → rest.length < n → Reply β (rest.length + 1)}
    (explained : reply.Explained)
    (hnext : ∀ value rest shorter, (next value rest shorter).Explained) :
    (reply.andThen next).Explained := by
  cases reply with
  | accepted value rest errors shorter =>
      exact ((hnext value rest shorter).widen _).after errors
  | refused rest errors notLonger =>
      intro herrors
      obtain ⟨value, hvalue, -⟩ := explained herrors
      cases hvalue

theorem explained_expect {kind : TokenKind} {cause : SyntaxError.Cause} {tokens : List Token} :
    (expect kind cause tokens).Explained := by
  cases tokens with
  | nil => exact explained_blame
  | cons token rest =>
      simp only [expect]
      split
      · exact explained_done
      · exact explained_blame

end LoxLang.Reply
