import Flowmend.CommandLine.Run
import Flowmend.CommandLine.Standard
import Flowmend.Proofs.CommandLine.Folder
import Flowmend.Proofs.Session.Drawn

/-!
# Runs without a document

Without an SVG document, the program puts out the drawing of its input, or the text that is shown if
the drawing is empty (`run_without_document`), whether the external renderer is not asked or fails,
and whatever its failure. A file gets this output as it is, and so does a terminal. Elsewhere its
control sequences may be left out (`run_strips_sequences`), of which a drawing has none.
-/

namespace Flowmend

open Text

namespace Engine.External

/-- The ways in which a run of the external renderer gives no document. -/
inductive Fails : Option Run → Prop
  | notFound : Fails none
  | status {run : Run} : run.exitCode ≠ 0 → Fails (some run)
  | noOutput {run : Run} : run.output = none → Fails (some run)
  | undecodable {run : Run} {bytes : List UInt8} : run.output = some bytes →
      Utf8.decode? bytes = none → Fails (some run)
  | blank {run : Run} {bytes : List UInt8} {svg : Text} : run.output = some bytes →
      Utf8.decode? bytes = some svg → allBlank svg = true → Fails (some run)

/-- A run that gives no document is a failure of the engine. -/
theorem Fails.outcome {run : Option Run} (h : Fails run) (executable diagram : Text) :
    ∃ failure, outcome executable diagram run = .failed failure := by
  have hstatus : ∀ {run : Run}, run.exitCode ≠ 0 →
      ∃ failure, External.outcome executable diagram (some run) = .failed failure := fun hcode => by
    rw [External.outcome, document, if_pos hcode]
    exact ⟨_, rfl⟩
  cases h with
  | notFound => exact ⟨_, rfl⟩
  | status hcode => exact hstatus hcode
  | @noOutput run hnone =>
    by_cases hcode : run.exitCode ≠ 0
    · exact hstatus hcode
    · rw [External.outcome, document, if_neg hcode, hnone]
      exact ⟨_, rfl⟩
  | @undecodable run bytes hbytes hdecode =>
    by_cases hcode : run.exitCode ≠ 0
    · exact hstatus hcode
    · rw [External.outcome, document, if_neg hcode, hbytes]
      simp only [hdecode]
      exact ⟨_, rfl⟩
  | @blank run bytes svg hbytes hdecode hblank =>
    by_cases hcode : run.exitCode ≠ 0
    · exact hstatus hcode
    · rw [External.outcome, document, if_neg hcode, hbytes]
      simp only [hdecode, if_pos hblank]
      exact ⟨_, rfl⟩

end Engine.External

namespace CommandLine

/-! ## The output for a source -/

/-- What is put out for a source without a document: its drawing, or if that is empty the text that
a render shows without an engine, as a line. -/
inductive IsOutput (cs : Charset) (source : Text) : Text → Prop
  | drawing {drawing : Text} : drawSource cs 1 source = .ok drawing → drawing ≠ [] →
      IsOutput cs source drawing
  | text {shown : Text} : drawSource cs 1 source = .ok [] →
      (∀ diagram, (renderOnce {} source diagram fun _ => .failed .unavailable) =
        .ok (.text shown)) →
      IsOutput cs source (shown ++ ['\n'])

section Output

variable {cs : Charset} {source out out' : Text}

/-- A source has one output only. -/
theorem IsOutput.unique (h : IsOutput cs source out) (h' : IsOutput cs source out') :
    out = out' := by
  cases h with
  | drawing hdraw hne =>
    cases h' with
    | drawing hdraw' => exact Except.ok.inj (hdraw.symm.trans hdraw')
    | text hdraw' => exact absurd (Except.ok.inj (hdraw.symm.trans hdraw')) hne
  | text hdraw hshown =>
    cases h' with
    | drawing hdraw' hne => exact absurd (Except.ok.inj (hdraw'.symm.trans hdraw)) hne
    | text _ hshown' =>
      cases Except.ok.inj ((hshown []).symm.trans (hshown' []))
      rfl

/-- A render whose engine fails gives the output, as it is written. -/
theorem exists_isOutput_written {engine : Text → Engine.Outcome} (h : FailsFor source engine)
    (cs : Charset) (diagram : Text) :
    ∃ result, renderOnce {} source diagram engine = .ok result ∧
      IsOutput cs source (written cs result) := by
  have hdraw := drawSource_eq cs 1 source
  rcases renderOnce_cases h diagram with ⟨p, hp, hresult⟩ | ⟨hp, shown, hresult, -⟩
  · obtain ⟨-, drawing, hdrawing, hne⟩ := Substitute.exists_drawing hp cs 1
    rw [hp] at hdraw
    refine ⟨_, hresult, ?_⟩
    rw [written, hdrawing]
    exact .drawing (hdraw.trans hdrawing) hne
  · rw [hp] at hdraw
    refine ⟨_, hresult, .text hdraw fun diagram' => ?_⟩
    rw [renderOnce_of_failsFor (failsFor_unavailable source), ← renderOnce_of_failsFor h diagram,
      hresult]

/-- Every source has an output. -/
theorem exists_isOutput (cs : Charset) (source : Text) : ∃ out, IsOutput cs source out := by
  obtain ⟨result, -, h⟩ := exists_isOutput_written (failsFor_unavailable source) cs []
  exact ⟨_, h⟩

theorem not_hasSequence_of_drawSource {padding : Int} {drawing : Text}
    (h : drawSource cs padding source = .ok drawing) : ¬Terminal.HasSequence drawing :=
  fun hseq => escape_notMem_drawing h hseq.escape_mem

end Output

/-! ## Replies -/

/-- The external renderer with these runs. -/
def rendererOf (processes : Text → Text → Text → Option Engine.External.Run) : Renderer :=
  fun executable diagram source =>
    Engine.External.outcome executable diagram (processes executable diagram source)

namespace Options

/-- The source that the options take from the text that was read. -/
def source (o : Options) (input : Text) : Text :=
  if o.markdown then Fence.diagram input else input

variable {o : Options} {input diagram : Text}
  {processes : Text → Text → Text → Option Engine.External.Run}
  (hfails : o.engine = .mmdc →
    Engine.External.Fails (processes o.executable diagram (mendUsual (o.source input)).text))

include hfails

theorem failsFor_outcome :
    FailsFor (o.source input) (o.outcome (rendererOf processes) diagram) := by
  unfold FailsFor outcome
  cases hengine : o.engine with
  | mmdc => exact (hfails hengine).outcome o.executable diagram
  | none => exact ⟨_, rfl⟩

theorem output_reply {out : Text} (h : IsOutput o.charset (o.source input) out) :
    (o.reply (rendererOf processes) diagram input).output = out := by
  obtain ⟨result, hresult, hout⟩ :=
    exists_isOutput_written (failsFor_outcome hfails) o.charset diagram
  rw [h.unique hout]
  have hrender : (Session.render { settings := {} }
      (if o.markdown then Fence.diagram input else input) diagram
      (o.outcome (rendererOf processes) diagram)).2 = .ok result := hresult
  simp only [reply, hrender]

end Options

/-! ## Runs -/

section Run

variable {c : Frontend} {o : Options} {f : Folder} {standardInput bytes : List UInt8}
  (hinput : input o f standardInput = .ok bytes) {text : Text}
  (hdecode : Utf8.decode? bytes = some text) {diagram : Text}
  {processes : Text → Text → Text → Option Engine.External.Run}
  (hfails : o.engine = .mmdc → Engine.External.Fails
    (processes o.executable diagram (mendUsual (o.source (foldReturns text))).text))
  (terminals : Terminals)

include hinput hdecode hfails

/-- The end of a run that reads its input and has no document. -/
theorem exists_run_eq {out : Text} (hout : IsOutput o.charset (o.source (foldReturns text)) out) :
    ∃ messages, ∀ arguments, c.parse arguments = some o →
      (o.outputFile? = none →
        c.run terminals arguments f standardInput (rendererOf processes) diagram =
          .exited ⟨0, c.echo terminals.output out, messages, f⟩) ∧
      ∀ name ∈ o.outputFile?, ∀ f', f.write name out.str.toUTF8.toList = .ok f' →
        c.run terminals arguments f standardInput (rendererOf processes) diagram =
          .exited ⟨0, [], messages, f'⟩ := by
  have hreply := Options.output_reply hfails hout
  refine ⟨(o.reply (rendererOf processes) diagram (foldReturns text)).messages.flatMap
    (c.echo terminals.messages), fun arguments hparse => ⟨fun hnone => ?_,
      fun name hname f' hwrite => ?_⟩⟩
  · simp only [Frontend.run, hparse, hinput, hdecode, hreply, hnone, Frontend.printing,
      List.flatMap_singleton]
  · simp only [Frontend.run, hparse, hinput, hdecode, hreply, Option.mem_def.1 hname, hwrite,
      Frontend.printing, List.flatMap_nil]

/-- Options can be set, and a run with them that has no document puts out what the library gives for
its source, the drawing or the text that is shown without one, and so the same for every failure. It
is printed as it is on a terminal, and elsewhere unless it has a control sequence, which no drawing
has. A file gets it as it is, and then nothing is printed. -/
theorem run_without_document (hlaws : c.Lawful) :
    ∃ out messages, (∀ out', IsOutput o.charset (o.source (foldReturns text)) out' ↔ out' = out) ∧
      (drawSource o.charset 1 (o.source (foldReturns text)) = .ok out →
        ¬Terminal.HasSequence out) ∧
      (terminals.output = true ∨ ¬Terminal.HasSequence out → c.echo terminals.output out = out) ∧
      c.parse o.arguments = some o ∧ ∀ arguments, c.parse arguments = some o →
        (o.outputFile? = none →
          c.run terminals arguments f standardInput (rendererOf processes) diagram =
            .exited ⟨0, c.echo terminals.output out, messages, f⟩) ∧
        ∀ name ∈ o.outputFile?, ∀ f', f.write name out.str.toUTF8.toList = .ok f' →
          c.run terminals arguments f standardInput (rendererOf processes) diagram =
            .exited ⟨0, [], messages, f'⟩ ∧
          (f.follow (Folder.start (Path.ofText name)) (Path.ofText name).steps.dropLast ≠
            .ok .outside → f'.read name = .ok out.str.toUTF8.toList) := by
  obtain ⟨out, hout⟩ := exists_isOutput o.charset (o.source (foldReturns text))
  obtain ⟨messages, hrun⟩ := exists_run_eq hinput hdecode hfails terminals hout
  refine ⟨out, messages, fun out' => ⟨fun h => h.unique hout, fun h => h ▸ hout⟩,
    not_hasSequence_of_drawSource, hlaws.echo_eq_self, hlaws.parse_arguments o,
    fun arguments hparse => ?_⟩
  obtain ⟨hprinted, hwritten⟩ := hrun arguments hparse
  exact ⟨hprinted, fun name hname f' hwrite =>
    ⟨hwritten name hname f' hwrite, Folder.read_of_write hwrite⟩⟩

end Run

/-- A run that reads one file and writes another, with a renderer that exits with an error. -/
theorem run_without_document_file :
    let arguments := ["-a", "-o", "sub/out.txt", "in.mmd"].map String.toList
    let o : Options :=
      { ascii := true, input := "in.mmd".toList, output := "sub/out.txt".toList }
    let source := "A --> B --> A".toList
    let f : Folder := ⟨[(["in.mmd".toList], source.map fun c => c.toNat.toUInt8)], [["sub".toList]]⟩
    let processes : Text → Text → Text → Option Engine.External.Run := fun _ _ _ =>
      some ⟨1, "no browser".toUTF8.toList, none⟩
    Frontend.standard.Lawful ∧ Frontend.standard.parse arguments = some o ∧
      ∃ bytes, input o f [] = .ok bytes ∧ Utf8.decode? bytes = some source ∧
        Engine.External.Fails (processes o.executable [] (mendUsual source).text) ∧
        ∃ out messages f', IsOutput .ascii source out ∧
          Frontend.standard.run {} arguments f [] (rendererOf processes) [] =
            .exited ⟨0, [], messages, f'⟩ ∧
          f'.read "sub/out.txt".toList = .ok out.str.toUTF8.toList := by
  intro arguments o source f processes
  have hparse : Frontend.standard.parse arguments = some o := by decide +kernel
  have hinput : input o f [] = .ok (source.map fun c => c.toNat.toUInt8) := by decide +kernel
  have hdecode : Utf8.decode? (source.map fun c => c.toNat.toUInt8) = some source := by
    decide +kernel
  have hfails : Engine.External.Fails (processes o.executable [] (mendUsual source).text) :=
    .status (by decide)
  obtain ⟨out, messages, hout, -, -, -, hrun⟩ :=
    run_without_document hinput hdecode (fun _ => hfails) {} Frontend.standard_lawful
  obtain ⟨hrun, hread⟩ := (hrun arguments hparse).2 "sub/out.txt".toList rfl
    (f.put ["sub".toList, "out.txt".toList] out.str.toUTF8.toList) rfl
  exact ⟨Frontend.standard_lawful, hparse, _, hinput, hdecode, hfails, out, messages, _,
    (hout out).2 rfl, hrun, hread (by decide +kernel)⟩

/-- A text that is shown may hold a control sequence, and then is not printed as it is. -/
theorem run_strips_sequences :
    let source := "\x1b[1mx]".toList
    let bytes := source.map fun c => c.toNat.toUInt8
    IsOutput .unicode source (source ++ ['\n']) ∧
      ∃ messages,
        Frontend.standard.run {} ["--engine".toList, "none".toList] {} bytes
          (rendererOf fun _ _ _ => none) [] = .exited ⟨0, "x]\n".toList, messages, {}⟩ := by
  intro source bytes
  have hdraw : drawSource .unicode 1 source = .ok [] := by decide +kernel
  have hnone : Substitute.positioned? {} source (mendUsual source) = none :=
    Option.isNone_iff_eq_none.1 (by decide +kernel)
  have hshown : Substitute.shown {} source (mendUsual source) = .ok source := by decide +kernel
  have hout : IsOutput .unicode source (source ++ ['\n']) := by
    refine .text hdraw fun diagram => ?_
    rcases renderOnce_cases (failsFor_unavailable source) diagram with
      ⟨p, hp, -⟩ | ⟨-, shown, hresult, heq⟩
    · rw [hnone] at hp
      cases hp
    · rw [hresult, Except.ok.inj (hshown.symm.trans (heq (by decide)))]
  have hparse : Frontend.standard.parse ["--engine".toList, "none".toList] =
      some { engine := .none } := by decide +kernel
  have hdecode : Utf8.decode? bytes = some source := by decide +kernel
  have hsource : foldReturns source = source := by decide
  obtain ⟨messages, hrun⟩ := @exists_run_eq Frontend.standard { engine := .none } {} bytes _ rfl _
    hdecode [] (fun _ _ _ => none) (fun h => by cases h) {} (source ++ ['\n']) (hsource.symm ▸ hout)
  refine ⟨hout, messages, ((hrun _ hparse).1 rfl).trans ?_⟩
  rw [show Frontend.standard.echo false (source ++ ['\n']) = "x]\n".toList by decide +kernel]

end CommandLine

end Flowmend
