import LineScript.Proofs.Program.Annotations

/-!
# The same outcome

Two sources come to the same if they compile to the same code with the same remarks on the same
lines, or fail alike (`SameOutcome`).  Places among the bytes of a source are left aside.  Main
statement: sources with the same findings, annotations aside, come to the same
(`sameOutcome_of_findings`).

This is where later files stop: whatever they do to a source, they show that the scanner makes out
the same, and never follow a change through reading and emitting again.  Annotations are forgotten
on both sides, and `compileFindings_bare` carries that through the stages once and for all.
-/

namespace LineScript

/-- The failures are of one kind. -/
def Failure.SameKind : Failure → Failure → Prop
  | .parse .., .parse .. | .grouping .., .grouping .. | .generation .., .generation .. => True
  | .settings, .settings | .file, .file => True
  | _, _ => False

/-- Two compilations come to the same: to the same code and the same remarks on the same lines, or
to a failure of the same kind with the same message. -/
inductive SameOutcome : Except Failure Compiled → Except Failure Compiled → Prop
  | ok {compiled compiled' : Compiled} (hcode : compiled.code = compiled'.code)
      (hremarks : compiled.diagnostics.map (fun remark => (remark.message, remark.line)) =
        compiled'.diagnostics.map fun remark => (remark.message, remark.line)) :
      SameOutcome (.ok compiled) (.ok compiled')
  | error {cause cause' : Failure} (hkind : cause.SameKind cause')
      (hmessage : cause.message = cause'.message) : SameOutcome (.error cause) (.error cause')

theorem Failure.message_withoutSpan (cause : Failure) :
    cause.withoutSpan.message = cause.message := by
  cases cause <;> rfl

theorem Failure.sameKind_of_withoutSpan {cause cause' : Failure}
    (heq : cause.withoutSpan = cause'.withoutSpan) : cause.SameKind cause' := by
  cases cause <;> cases cause' <;> trivial

theorem remarks_withoutSpan (diagnostics : List Diagnostic) :
    (diagnostics.map Diagnostic.withoutSpan).map (fun remark => (remark.message, remark.line)) =
      diagnostics.map fun remark => (remark.message, remark.line) := by
  rw [List.map_map]
  rfl

/-- Outcomes that differ in their spans only are the same. -/
theorem sameOutcome_of_withoutSpans {outcome outcome' : Except Failure Compiled}
    (heq : (outcome.map Compiled.withoutSpans).mapError Failure.withoutSpan =
      (outcome'.map Compiled.withoutSpans).mapError Failure.withoutSpan) :
    SameOutcome outcome outcome' := by
  cases outcome with
  | error cause =>
      cases outcome' with
      | error cause' =>
          have hcause : cause.withoutSpan = cause'.withoutSpan := Except.error.inj heq
          refine .error (Failure.sameKind_of_withoutSpan hcause) ?_
          rw [← cause.message_withoutSpan, hcause, cause'.message_withoutSpan]
      | ok compiled' => cases heq
  | ok compiled =>
      cases outcome' with
      | error cause' => cases heq
      | ok compiled' =>
          -- code and remarks are the same but for places
          have hcompiled : compiled.withoutSpans = compiled'.withoutSpans := Except.ok.inj heq
          have hremarks : compiled.diagnostics.map Diagnostic.withoutSpan =
              compiled'.diagnostics.map Diagnostic.withoutSpan :=
            congrArg Compiled.diagnostics hcompiled
          have hcode : compiled.withoutSpans.code = compiled'.withoutSpans.code := by
            rw [hcompiled]
          refine .ok hcode ?_
          rw [← remarks_withoutSpan, hremarks, remarks_withoutSpan]

/-- Sources with the same bare findings come to the same. -/
theorem sameOutcome_of_findings (settings : Settings) {source source' : String}
    (hfindings : (findings source).map Finding.bare = (findings source').map Finding.bare) :
    SameOutcome (compile settings source) (compile settings source') := by
  have hbare (source : String) :
      ((compile settings source).map Compiled.withoutSpans).mapError Failure.withoutSpan =
        compileFindings settings ((findings source).map Finding.bare) := by
    rw [compile_eq_compileFindings, compileFindings_bare]
  refine sameOutcome_of_withoutSpans ?_
  rw [hbare, hbare, hfindings]

end LineScript
