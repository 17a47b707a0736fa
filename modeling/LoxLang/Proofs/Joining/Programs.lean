import LoxLang.Proofs.Joining.Sources
import LoxLang.Proofs.Lockstep.Declarations
import LoxLang.Proofs.Syntax.Programs

/-!
# Programs one after the other

A program ends where it is complete, whatever follows it, so the tokens of two
programs are the program of both.  On later lines a text is the same program with
its tokens on later lines.
-/

namespace LoxLang

open Grammar

structure Reads (tokens : List Token) (nodes : List Stmt) : Prop where
  clean : ∀ declared ∈ Stmt.readDeclarations tokens, declared.errors = []
  nodes : (Stmt.readDeclarations tokens).filterMap Declared.node = nodes

theorem reads_iff {tokens : List Token} {nodes : List Stmt} :
    Reads tokens nodes ↔ ∃ d : Derivation (.symbol .program), d.tree = nodes ∧ d.yield = tokens :=
  (Iff.intro (fun h => ⟨h.clean, h.nodes⟩) fun h => ⟨h.1, h.2⟩).trans
    (Stmt.readDeclarations_clean_iff tokens)

/-! ## Concatenation -/

theorem Grammar.Derivation.exists_append {item : Form} (d d' : Derivation (.repeated item)) :
    ∃ joined : Derivation (.repeated item), joined.yield = d.yield ++ d'.yield ∧
      joined.parts = List.append d.parts d'.parts := by
  match d with
  | .stop => exact ⟨d', rfl, rfl⟩
  | .more head tail =>
      obtain ⟨joined, hyield, hparts⟩ := tail.exists_append d'
      refine ⟨.more head joined, ?_, congrArg (List.cons head.parts) hparts⟩
      rw [yield, yield, hyield, List.append_assoc]

theorem Reads.append {first second : List Token} {nodes nodes' : List Stmt}
    (h : Reads first nodes) (h' : Reads second nodes') :
    Reads (first ++ second) (nodes ++ nodes') := by
  obtain ⟨d, hd, hfirst⟩ := reads_iff.mp h
  obtain ⟨d', hd', hsecond⟩ := reads_iff.mp h'
  match d, d' with
  | .node _ body, .node _ body' =>
      obtain ⟨joined, hyield, hparts⟩ := body.exists_append body'
      refine reads_iff.mpr ⟨.node .program joined, ?_, ?_⟩
      · rw [← hd, ← hd']
        exact hparts
      · rw [← hfirst, ← hsecond]
        exact hyield

/-! ## Later lines -/

def Shifted (lines : Nat) (token token' : Token) : Prop :=
  token' = token.later lines

theorem Shifted.same {lines : Nat} {token token' : Token} (h : Shifted lines token token') :
    token.SameButLine token' := by
  rw [h]
  exact ⟨rfl, rfl, rfl⟩

theorem lockstep_later (lines : Nat) :
    Lockstep (Shifted lines) (fun tokens tokens' => tokens' = tokens.map (Token.later lines))
      (fun tokens tokens' => tokens' = tokens.map (Token.later lines)) where
  same := Shifted.same
  heads := by
    rintro tokens _ rfl
    cases tokens with
    | nil => exact .nil
    | cons token rest => exact .cons rfl
  tail := fun h _ => (List.cons.inj h).2
  behind := fun h _ => (List.cons.inj h).2

section

variable {R : Token → Token → Prop} {S : List Token → List Token → Prop}
  {declared declared' : List Declared}

theorem Stmt.AllAlike.of_declared (h : List.Forall₂ (Declared.Alike R S) declared declared') :
    AllAlike R (declared.filterMap Declared.node) (declared'.filterMap Declared.node) := by
  induction h with
  | nil => exact .nil
  | cons hfirst _ ih =>
      have happend := (AllAlike.of_rel hfirst.node).append ih
      simpa only [List.filterMap_eq_flatMap_toList, List.flatMap_cons] using happend

theorem errors_eq_nil_of_alike (h : List.Forall₂ (Declared.Alike R S) declared declared')
    (hclean : ∀ d ∈ declared, d.errors = []) : ∀ d ∈ declared', d.errors = [] := by
  induction h with
  | nil => simp
  | cons hfirst _ ih =>
      rw [List.forall_mem_cons] at hclean ⊢
      have herrors := hfirst.errors
      rw [hclean.1] at herrors
      exact ⟨List.forall₂_nil_left_iff.mp herrors, ih hclean.2⟩

end

theorem Reads.later {tokens : List Token} {nodes : List Stmt} (h : Reads tokens nodes)
    (lines : Nat) : ∃ nodes', Stmt.AllAlike (Shifted lines) nodes nodes' ∧
      Reads (tokens.map (Token.later lines)) nodes' := by
  have halike := Stmt.readDeclarations_alike (lockstep_later lines)
    (rfl : tokens.map (Token.later lines) = _)
  have hnodes := Stmt.AllAlike.of_declared halike
  rw [h.nodes] at hnodes
  exact ⟨_, hnodes, errors_eq_nil_of_alike halike h.clean, rfl⟩

/-! ## Sources -/

theorem Program.reads_of_clean {source : String} (h : (Program.ofSource source).diagnostics = []) :
    Reads (scan source).text.body (Program.ofSource source).statements :=
  ⟨TokenText.diagnostics_program_eq_nil_iff.mp (List.append_eq_nil_iff.mp h).2, rfl⟩

theorem Program.clean_of_reads {source : String} {nodes : List Stmt}
    (hproblems : (scan source).problems = []) (h : Reads (scan source).text.body nodes) :
    (Program.ofSource source).diagnostics = [] ∧ (Program.ofSource source).statements = nodes := by
  refine ⟨?_, h.nodes⟩
  have hsyntax := TokenText.diagnostics_program_eq_nil_iff.mpr h.clean
  exact List.append_eq_nil_iff.mpr ⟨hproblems, hsyntax⟩

/-- Two sources with a newline between them are the one program and then the other. -/
theorem Program.newline {front back joined : String}
    (hfront : (Program.ofSource front).diagnostics = [])
    (hback : (Program.ofSource back).diagnostics = [])
    (hjoined : joined.toList = front.toList ++ '\n' :: back.toList) :
    (Program.ofSource joined).diagnostics = [] ∧
      ∃ nodes, Stmt.AllAlike (Shifted (Lexeme.newlines front.toList + 1))
          (Program.ofSource back).statements nodes ∧
        (Program.ofSource joined).statements = (Program.ofSource front).statements ++ nodes := by
  have hfrontProblems : (scan front).problems = [] := (List.append_eq_nil_iff.mp hfront).1
  have hbackProblems : (scan back).problems = [] := (List.append_eq_nil_iff.mp hback).1
  obtain ⟨hbody, hproblems⟩ := scan_newline hfrontProblems hjoined
  obtain ⟨nodes, halike, hreads⟩ :=
    (Program.reads_of_clean hback).later (Lexeme.newlines front.toList + 1)
  have hboth := (Program.reads_of_clean hfront).append hreads
  rw [← hbody] at hboth
  rw [hbackProblems] at hproblems
  obtain ⟨hclean, hstatements⟩ := Program.clean_of_reads hproblems hboth
  exact ⟨hclean, nodes, halike, hstatements⟩

end LoxLang
