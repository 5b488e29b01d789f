import Stencil.Proofs.Command.Loading
import Stencil.Proofs.Command.OutputFile

/-! A rendering that goes to a file leaves there what it else prints, whether it succeeds or fails on the way, and if what
it needs cannot be loaded it leaves the file as it was. That is so for any name of the file, also for one of those that
are read, since all of them are read before the file is made. -/

namespace Stencil.Command

variable {files : Files} {template : String} {a : Arguments} {t : Template} {scope : Scope}

/-- What has been put out tells nothing about how a run ends. -/
theorem ofResult_ofLibrary (stdout : String) (result : Except Error Unit) :
    let o := Outcome.ofResult stdout (ofLibrary result)
    o.stdout = stdout ∧ Outcome.ofResult "" (ofLibrary result) = { o with stdout := "" } ∧
      (result = .ok () ∧ o.exit = 0 ∨ ∃ e, result = .error e ∧ o.exit = 1) := by
  cases result with
  | ok done => exact ⟨rfl, rfl, .inl ⟨rfl, rfl⟩⟩
  | error e => exact ⟨rfl, rfl, .inr ⟨e, rfl, rfl⟩⟩

theorem render_of_unreadable (h : Unreadable files template a) :
    ∃ message, ∀ output, render files template { a with output } = (⟨1, "", message⟩, files) := by
  cases hload : load files template a with
  | error f =>
    refine ⟨f.message, fun output => ?_⟩
    have same : load files template { a with output } = .error f := hload
    rw [render, same]
    rfl
  | ok loaded => exact absurd h (loads_of_load hload).readable

theorem render_to_stdout (h : load files template a = .ok (t, scope)) :
    let rendered := Render.into Sink.text t.config t.document scope ""
    render files template { a with output := none } = (.ofResult rendered.2 (ofLibrary rendered.1), files) := by
  have same : load files template { a with output := none } = .ok (t, scope) := h
  rw [render, same]
  rfl

theorem render_to_file {name : String} {route : Route} (h : load files template a = .ok (t, scope))
    (hroute : files.vacancy name = .ok route) :
    let rendered := Render.into Sink.text t.config t.document scope ""
    render files template { a with output := some name } =
      (.ofResult "" (ofLibrary rendered.1), files.write route rendered.2) := by
  obtain ⟨o, hcreate, hholds⟩ := OutputFile.holds_create hroute
  obtain ⟨hresult, hfiles⟩ := Render.into_outputFile t.config t.document scope hholds
  have same : load files template { a with output := some name } = .ok (t, scope) := h
  rw [render, same]
  dsimp only
  rw [hcreate, ← hresult, ← hfiles]
  rfl

/-- Two runs that differ in where the rendering goes. If anything cannot be loaded, they are the same and leave every file
as it was. Else the one leaves in its file what the other prints, whatever the file is, and they end alike: in success with
the whole of it, or in failure with what was rendered before. -/
theorem run_output (files : Files) {given saving : List String} {name : String}
    (hgiven : Request.ofArgs false given = .run .render template { a with output := none })
    (hsaving : Request.ofArgs false saving = .run .render template { a with output := some name }) :
    let shown := run files given
    let saved := run files saving
    shown.2 = files ∧
      (Unreadable files template a → (shown.1.exit = 1 ∧ shown.1.stdout = "") ∧ saved = shown) ∧
      (¬ Unreadable files template a → ∀ route, files.vacancy name = .ok route →
        (saved.2 = files.write route shown.1.stdout ∧ saved.2.read name = .ok (Text.Utf8.encode shown.1.stdout)) ∧
        saved.1 = { shown.1 with stdout := "" } ∧
        ∃ t scope, Loads files template a t scope ∧
          let rendered := Render.into Sink.text t.config t.document scope ""
          shown.1.stdout = rendered.2 ∧
            (rendered.1 = .ok () ∧ shown.1.exit = 0 ∨ ∃ e, rendered.1 = .error e ∧ shown.1.exit = 1)) := by
  have hshown : run files given = render files template { a with output := none } := by rw [run, hgiven, answer]
  have hsaved : run files saving = render files template { a with output := some name } := by rw [run, hsaving, answer]
  rw [hshown, hsaved]
  cases hload : load files template a with
  | error f =>
    have hunreadable := unreadable_of_load hload
    obtain ⟨message, hrender⟩ := render_of_unreadable hunreadable
    rw [hrender, hrender]
    exact ⟨rfl, fun _ => ⟨⟨rfl, rfl⟩, rfl⟩, fun hreadable => absurd hunreadable hreadable⟩
  | ok loaded =>
    obtain ⟨t, scope⟩ := loaded
    have hloads := loads_of_load hload
    rw [render_to_stdout hload]
    refine ⟨rfl, fun hunreadable => absurd hunreadable hloads.readable, fun _ route hroute => ?_⟩
    rw [render_to_file hload hroute]
    obtain ⟨hstdout, hquiet, hexit⟩ := ofResult_ofLibrary (Render.into Sink.text t.config t.document scope "").2
      (Render.into Sink.text t.config t.document scope "").1
    dsimp only
    rw [hstdout]
    exact ⟨⟨rfl, Files.read_set_of_vacancy hroute _⟩, hquiet, t, scope, hloads, rfl, hexit⟩

theorem exists_ok_of_toBool {ε α : Type} {x : Except ε α} (h : x.toBool = true) : ∃ y, x = .ok y := by
  cases x with
  | error e => cases h
  | ok y => exact ⟨y, rfl⟩

theorem exists_error_of_toBool {ε α : Type} {x : Except ε α} (h : x.toBool = false) : ∃ e, x = .error e := by
  cases x with
  | error e => exact ⟨e, rfl⟩
  | ok y => cases h

/-- A template that fails behind its first element, and a context for it. -/
def desk : Files :=
  ⟨[(["page.html"], .file (Text.Utf8.encode "<b>Hello</b><i t:text></i>")),
    (["data.json"], .file (Text.Utf8.encode "\x7b\x7d"))]⟩

/-- What is rendered of the template takes its place, where there is no lack of anything; a context that is not there leaves
the template alone. -/
theorem run_output_desk :
    let a : Arguments := { template := some "page.html", context := some "data.json" }
    let lacking : Arguments := { a with context := some "none.json" }
    let given (context : String) := ["render", "page.html", "-c", context]
    let saving (context : String) := given context ++ ["-o", "page.html"]
    (Request.ofArgs false (given "data.json") = .run .render "page.html" { a with output := none } ∧
      Request.ofArgs false (saving "data.json") = .run .render "page.html" { a with output := some "page.html" } ∧
      Request.ofArgs false (given "none.json") = .run .render "page.html" { lacking with output := none } ∧
      Request.ofArgs false (saving "none.json") = .run .render "page.html" { lacking with output := some "page.html" }) ∧
    ((run desk (given "data.json")).1.stdout = "<b>Hello</b>" ∧
      (run desk (saving "data.json")).2.read "page.html" = .ok (Text.Utf8.encode "<b>Hello</b>") ∧
      (run desk (saving "data.json")).1 = { (run desk (given "data.json")).1 with stdout := "" }) ∧
    (run desk (saving "none.json")).1.exit = 1 ∧ (run desk (saving "none.json")).2 = desk := by
  intro a lacking given saving
  have readable : ¬ Unreadable desk "page.html" a := by
    obtain ⟨⟨t, scope⟩, hload⟩ := exists_ok_of_toBool (x := load desk "page.html" a) (by decide +kernel)
    exact (loads_of_load hload).readable
  have unreadable : Unreadable desk "page.html" lacking := by
    obtain ⟨fault, hfile⟩ := exists_error_of_toBool (x := desk.readText "none.json") (by decide +kernel)
    exact .contextFile rfl hfile
  obtain ⟨route, room⟩ := exists_ok_of_toBool (x := desk.vacancy "page.html") (by decide +kernel)
  have hgiven : Request.ofArgs false (given "data.json") = .run .render "page.html" { a with output := none } := by
    decide +kernel
  have hsaving : Request.ofArgs false (saving "data.json") =
      .run .render "page.html" { a with output := some "page.html" } := by
    decide +kernel
  have hgiven' : Request.ofArgs false (given "none.json") = .run .render "page.html" { lacking with output := none } := by
    decide +kernel
  have hsaving' : Request.ofArgs false (saving "none.json") =
      .run .render "page.html" { lacking with output := some "page.html" } := by
    decide +kernel
  have printed : (run desk (given "data.json")).1.stdout = "<b>Hello</b>" := by decide +kernel
  obtain ⟨-, -, h⟩ := run_output desk hgiven hsaving
  obtain ⟨⟨-, hread⟩, hquiet, -⟩ := h readable route room
  obtain ⟨hfiles, h, -⟩ := run_output desk hgiven' hsaving'
  obtain ⟨⟨hexit, -⟩, hsame⟩ := h unreadable
  rw [printed] at hread
  refine ⟨⟨hgiven, hsaving, hgiven', hsaving'⟩, ⟨printed, hread, hquiet⟩, ?_, ?_⟩
  · rw [hsame, hexit]
  · rw [hsame, hfiles]

end Stencil.Command
