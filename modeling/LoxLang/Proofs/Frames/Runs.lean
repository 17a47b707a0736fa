import LoxLang.Proofs.Frames.Discipline

/-!
# Runs keep the frames

Expressions and statements keep the frames of a disciplined machine, whatever they
end with, and so the machine is disciplined wherever one of their parts starts or
ends.  Nothing is asked of the trees: stray nodes may stand anywhere in them.
-/

namespace LoxLang.Frames

open Run

def last {α : Type} : EStateM.Result Fault Machine α → Machine
  | .ok _ machine => machine
  | .error _ machine => machine

def Tidy {α : Type} (run : Run α) : Prop :=
  ∀ machine, Disciplined machine → Keeps machine (last (run machine))

section

variable {α β : Type}

theorem tidy_pure (value : α) : Tidy (pure value) :=
  fun machine _ => .refl machine

theorem tidy_throw (fault : Fault) : Tidy (throw fault : Run α) :=
  fun machine _ => .refl machine

theorem tidy_get : Tidy (get : Run Machine) :=
  fun machine _ => .refl machine

theorem Tidy.bind {run : Run α} {next : α → Run β} (h : Tidy run)
    (hnext : ∀ value, Tidy (next value)) : Tidy (run >>= next) := by
  intro machine hmachine
  have hrun := h machine hmachine
  rw [bind_apply]
  cases hresult : run machine with
  | ok value middle =>
      rw [hresult] at hrun
      exact hrun.trans (hnext value middle (hrun.disciplined hmachine))
  | error fault middle =>
      rw [hresult] at hrun
      exact hrun

theorem tidy_ofResult (result : Except Fault α) : Tidy (ofResult result) := by
  cases result with
  | ok value => exact tidy_pure value
  | error fault => exact tidy_throw fault

theorem tidy_emit {event : Event} (h : isBracket event = false) : Tidy (emit event) :=
  fun machine _ => .record h machine

theorem tidy_printLine (line : String) : Tidy (printLine line) :=
  fun _ _ => ⟨rfl, rfl, rfl, [], (List.append_nil _).symm, .of_no_bracket rfl⟩

theorem tidy_updateArena {change : Arena → Except Fault Arena}
    (h : ∀ arena arena', change arena = .ok arena' →
      arena'.frames.map Frame.enclosing = arena.frames.map Frame.enclosing) :
    Tidy (updateArena change) := by
  intro machine _
  rw [updateArena_apply]
  cases hchange : change machine.arena with
  | ok arena =>
      exact ⟨h _ _ hchange, rfl, rfl, [], (List.append_nil _).symm, .of_no_bracket rfl⟩
  | error fault => exact .refl machine

theorem Tidy.inBlock {body : Run Unit} (h : Tidy body) : Tidy (inBlock body) := by
  intro machine hmachine
  have hsize : 0 < machine.arena.size := by
    have hinnermost := hmachine.innermost
    omega
  have hbody := h machine.enterBlock hmachine.enterBlock
  rw [inBlock_apply hsize]
  cases hresult : body machine.enterBlock with
  | ok value inside =>
      rw [hresult] at hbody
      exact hbody.block hmachine
  | error fault inside =>
      rw [hresult] at hbody
      exact hbody.block hmachine

end

/-! ## Bindings change, frames do not -/

theorem enclosing_modify (frames : List Frame) (place : Nat) (name : String) (value : Value) :
    (frames.modify place fun frame =>
      { frame with values := frame.values.insert name value }).map Frame.enclosing =
      frames.map Frame.enclosing := by
  apply List.ext_getElem?
  intro i
  rw [List.getElem?_map, List.getElem?_map, List.getElem?_modify]
  cases frames[i]? with
  | none => rfl
  | some frame =>
      by_cases h : place = i <;> simp [h]

theorem enclosing_assign {arena arena' : Arena} {index : Int} {name : Token} {value : Value}
    (h : arena.assign index name value = .ok arena') :
    arena'.frames.map Frame.enclosing = arena.frames.map Frame.enclosing := by
  unfold Arena.assign at h
  split at h
  · cases h
    exact enclosing_modify ..
  · cases h

theorem enclosing_define {arena arena' : Arena} {index : Int} {name : String} {value : Value}
    (h : arena.define index name value = .ok arena') :
    arena'.frames.map Frame.enclosing = arena.frames.map Frame.enclosing := by
  unfold Arena.define at h
  split at h
  · cases h
  · cases h
    exact enclosing_modify ..

/-! ## Expressions and statements -/

theorem evaluate_tidy (expr : Expr) : Tidy expr.evaluate := by
  induction expr with
  | literal value => exact tidy_pure value
  | grouping inner ih => exact ih
  | unary operator right ih =>
      rw [Expr.evaluate]
      exact ih.bind fun operand => tidy_ofResult _
  | binary left operator right ihLeft ihRight =>
      rw [Expr.evaluate]
      exact ihLeft.bind fun first => ihRight.bind fun second => tidy_ofResult _
  | reference name =>
      rw [Expr.evaluate]
      exact tidy_get.bind fun machine => tidy_ofResult _
  | assign name right ih =>
      rw [Expr.evaluate]
      refine ih.bind fun value => tidy_get.bind fun machine => ?_
      refine (tidy_updateArena fun _ _ => enclosing_assign).bind fun _ => ?_
      exact (tidy_emit rfl).bind fun _ => tidy_pure value
  | stray kind => exact tidy_throw _

mutual

theorem perform_tidy (stmt : Stmt) : Tidy stmt.perform := by
  cases stmt with
  | expression value =>
      rw [Stmt.perform]
      exact (evaluate_tidy value).bind fun _ => tidy_pure ()
  | print value =>
      rw [Stmt.perform]
      exact (evaluate_tidy value).bind fun result => tidy_printLine _
  | declare name initial =>
      have hbind : ∀ value, Tidy (do
          let frame := (← get).frame
          updateArena (·.define frame name.lexeme value)
          emit (.declare name.lexeme value frame) : Run Unit) := by
        intro value
        refine tidy_get.bind fun machine => ?_
        exact (tidy_updateArena fun _ _ => enclosing_define).bind fun _ => tidy_emit rfl
      cases initial with
      | none =>
          rw [Stmt.perform]
          exact (tidy_pure Value.nil).bind hbind
      | some initial =>
          rw [Stmt.perform]
          exact (evaluate_tidy initial).bind hbind
  | block body =>
      rw [Stmt.perform]
      exact (executeAll_tidy body).inBlock
  | stray kind => exact tidy_throw _

theorem executeAll_tidy (stmts : List Stmt) : Tidy (Stmt.executeAll stmts) := by
  cases stmts with
  | nil => exact tidy_pure ()
  | cons first rest =>
      rw [Stmt.executeAll]
      refine (tidy_emit rfl).bind fun _ => ?_
      exact (perform_tidy first).bind fun _ => executeAll_tidy rest

end

/-! ## On the way -/

/-- The machine as it is where the expression or a part of it starts or ends. -/
inductive AtExpr : Expr → Machine → Machine → Prop
  | starts {expr machine} : AtExpr expr machine machine
  | ends {expr machine} : AtExpr expr machine (last (expr.evaluate machine))
  | grouping {inner machine moment} :
      AtExpr inner machine moment → AtExpr (.grouping inner) machine moment
  | unary {operator right machine moment} :
      AtExpr right machine moment → AtExpr (.unary operator right) machine moment
  | left {left operator right machine moment} :
      AtExpr left machine moment → AtExpr (.binary left operator right) machine moment
  | right {left operator right machine first middle moment} :
      left.evaluate machine = .ok first middle → AtExpr right middle moment →
      AtExpr (.binary left operator right) machine moment
  | assign {name right machine moment} :
      AtExpr right machine moment → AtExpr (.assign name right) machine moment

mutual

inductive AtStmt : Stmt → Machine → Machine → Prop
  | starts {stmt machine} : AtStmt stmt machine machine
  | ends {stmt machine} : AtStmt stmt machine (last (stmt.perform machine))
  | expression {value machine moment} :
      AtExpr value machine moment → AtStmt (.expression value) machine moment
  | print {value machine moment} :
      AtExpr value machine moment → AtStmt (.print value) machine moment
  | initial {name initial machine moment} :
      AtExpr initial machine moment → AtStmt (.declare name (some initial)) machine moment
  | block {body machine moment} :
      AtStmts body machine.enterBlock moment → AtStmt (.block body) machine moment

inductive AtStmts : List Stmt → Machine → Machine → Prop
  | starts {first rest machine} : AtStmts (first :: rest) machine machine
  | first {first rest machine moment} :
      AtStmt first (machine.record (.execute first.kind)) moment →
      AtStmts (first :: rest) machine moment
  | next {first rest machine middle moment} :
      first.perform (machine.record (.execute first.kind)) = .ok () middle →
      AtStmts rest middle moment → AtStmts (first :: rest) machine moment

end

/-- A machine on the way: disciplined, and inside as many traced brackets as frames. -/
structure Within (machine moment : Machine) : Prop where
  disciplined : Disciplined moment
  level : moment.level = machine.level
  trace : ∃ events, moment.trace = machine.trace ++ events ∧
    (3 ≤ machine.level → Opens machine.frame (brackets events) moment.frame)

variable {machine machine' moment : Machine}

theorem Keeps.within (h : Keeps machine machine') (hmachine : Disciplined machine) :
    Within machine machine' := by
  obtain ⟨events, htrace, hbalanced⟩ := h.trace
  refine ⟨h.disciplined hmachine, h.level, events, htrace, ?_⟩
  intro hlevel
  rw [h.frame]
  exact .here (hbalanced.nested hlevel)

theorem Within.after (h : Within machine' moment) (hkeeps : Keeps machine machine') :
    Within machine moment := by
  obtain ⟨events, htrace, hbalanced⟩ := hkeeps.trace
  obtain ⟨events', htrace', hopens⟩ := h.trace
  refine ⟨h.disciplined, h.level.trans hkeeps.level, events ++ events', ?_, ?_⟩
  · rw [htrace', htrace, List.append_assoc]
  · intro hlevel
    rw [hkeeps.level, hkeeps.frame] at hopens
    rw [brackets_append]
    exact (hopens hlevel).after (hbalanced.nested hlevel)

theorem Within.inside (h : Within machine.enterBlock moment) (hmachine : Disciplined machine) :
    Within machine moment := by
  obtain ⟨events, htrace, hopens⟩ := h.trace
  rw [Machine.level_enterBlock, frame_enterBlock hmachine] at hopens
  rw [Machine.trace_enterBlock, ← hmachine.innermost, List.append_assoc] at htrace
  refine ⟨h.disciplined, h.level.trans machine.level_enterBlock, _, htrace, ?_⟩
  intro hlevel
  rw [brackets_append, brackets_traced rfl,
    (Event.enterFrame (machine.frame + 1) machine.frame).traced_of_le hlevel]
  exact .inside .nil (hopens hlevel)

theorem AtExpr.within {expr : Expr} (h : AtExpr expr machine moment)
    (hmachine : Disciplined machine) : Within machine moment := by
  induction h with
  | starts => exact (Keeps.refl _).within hmachine
  | ends => exact (evaluate_tidy _ _ hmachine).within hmachine
  | grouping _ ih => exact ih hmachine
  | unary _ ih => exact ih hmachine
  | left _ ih => exact ih hmachine
  | @right left _ _ machine first middle _ hleft _ ih =>
      have hkeeps := evaluate_tidy left machine hmachine
      rw [hleft] at hkeeps
      exact (ih (hkeeps.disciplined hmachine)).after hkeeps
  | assign _ ih => exact ih hmachine

mutual

theorem AtStmt.within {stmt : Stmt} {machine moment : Machine} (hmachine : Disciplined machine) :
    AtStmt stmt machine moment → Within machine moment
  | .starts => (Keeps.refl _).within hmachine
  | .ends => (perform_tidy _ _ hmachine).within hmachine
  | .expression hvalue => hvalue.within hmachine
  | .print hvalue => hvalue.within hmachine
  | .initial hvalue => hvalue.within hmachine
  | .block hbody => (hbody.within hmachine.enterBlock).inside hmachine

theorem AtStmts.within {stmts : List Stmt} {machine moment : Machine}
    (hmachine : Disciplined machine) :
    AtStmts stmts machine moment → Within machine moment
  | .starts => (Keeps.refl _).within hmachine
  | @AtStmts.first first _ _ _ hfirst => by
      have hstart : Keeps machine (machine.record (.execute first.kind)) := .record rfl machine
      exact (hfirst.within (hstart.disciplined hmachine)).after hstart
  | @AtStmts.next first _ _ middle _ hperform hrest => by
      have hstart : Keeps machine (machine.record (.execute first.kind)) := .record rfl machine
      have hfirst := perform_tidy first _ (hstart.disciplined hmachine)
      rw [hperform] at hfirst
      have hkeeps := hstart.trans hfirst
      exact (hrest.within (hkeeps.disciplined hmachine)).after hkeeps

end

end LoxLang.Frames
