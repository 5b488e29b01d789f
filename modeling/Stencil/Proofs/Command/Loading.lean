import Stencil.Command.Run
import Stencil.Proofs.Render.Failures

/-! What a rendering needs is loaded exactly if it can be read: a configuration that was read is not refused again when it
is put into a template. -/

namespace Stencil

theorem Config.validate_of_ofFile {files : Files} {name : String} {c : Config} (h : ofFile files name = .ok c) :
    c.validate = .ok () := by
  unfold ofFile at h
  split at h
  · cases h
  · split at h
    · cases h
    · next read =>
      obtain rfl := Except.ok.inj h
      unfold ofToml at read
      split at read
      · cases read
      · obtain ⟨c', -, read⟩ := ok_of_bind read
        obtain ⟨⟨⟩, valid, read⟩ := ok_of_bind read
        obtain rfl := Except.ok.inj read
        exact valid

theorem Template.config_of_ofFile {files : Files} {name : String} {t : Template} (h : ofFile files name = .ok t) :
    t.config = {} := by
  unfold ofFile at h
  split at h
  · cases h
  · unfold parse at h
    dsimp only at h
    split at h
    · obtain rfl := Except.ok.inj h
      rfl
    · cases h

namespace Command

/-- Why there is nothing to render: the configuration, the template or the context cannot be read, or is not valid. -/
inductive Unreadable (files : Files) (template : String) (a : Arguments) : Prop
  | config {name : String} {e : Error} (given : a.config = some name) (fails : Config.ofFile files name = .error e)
  | template {e : Error} (fails : Template.ofFile files template = .error e)
  | contextFile {name : String} {fault : FileFault} (given : a.context = some name)
      (fails : files.readText name = .error fault)
  | contextText {name text : String} {p : Json.Problem} (given : a.context = some name)
      (file : files.readText name = .ok text) (fails : Json.read text = .error p)
  | contextValue {name text : String} {j : Json} {e : Error} (given : a.context = some name)
      (file : files.readText name = .ok text) (value : Json.read text = .ok j) (fails : Scope.ofJson [] j = .error e)

/-- A configuration, if a file of one is named, and else the default. -/
def Configures (files : Files) (c : Config) : Option String → Prop
  | none => c = {}
  | some name => Config.ofFile files name = .ok c

/-- The scope that a file of JSON describes, if one is named, and else the empty one. -/
def Scopes (files : Files) (scope : Scope) : Option String → Prop
  | none => scope = .empty
  | some name => ∃ text j, files.readText name = .ok text ∧ Json.read text = .ok j ∧ Scope.ofJson [] j = .ok scope

/-- The template, under its configuration, and the scope are what the files hold under the names that are given. -/
structure Loads (files : Files) (template : String) (a : Arguments) (t : Template) (scope : Scope) : Prop where
  configures : Configures files t.config a.config
  reads : Template.ofFile files template = .ok { t with config := {} }
  scopes : Scopes files scope a.context

variable {files : Files} {template : String} {a : Arguments} {t : Template} {scope : Scope}

theorem error_of_ofLibrary {α : Type} {x : Except Error α} {f : Failure} (h : ofLibrary x = .error f) :
    ∃ e, x = .error e := by
  cases x with
  | error e => exact ⟨e, rfl⟩
  | ok x => cases h

theorem ok_of_ofLibrary {α : Type} {x : Except Error α} {y : α} (h : ofLibrary x = .ok y) : x = .ok y := by
  cases x with
  | error e => cases h
  | ok x => exact congrArg Except.ok (Except.ok.inj h)

theorem configures_of_loadConfig {c : Config} (h : loadConfig files a.config = .ok c) : Configures files c a.config := by
  unfold loadConfig at h
  split at h
  · next hconfig =>
    rw [hconfig]
    exact (Except.ok.inj h).symm
  · next name hconfig =>
    rw [hconfig]
    exact h

theorem Configures.valid {c : Config} {config : Option String} (h : Configures files c config) : c.validate = .ok () := by
  cases config with
  | none =>
    obtain rfl : c = {} := h
    rfl
  | some name => exact Config.validate_of_ofFile h

theorem loads_of_loadTemplate (h : loadTemplate files template a.config = .ok t) :
    Configures files t.config a.config ∧ Template.ofFile files template = .ok { t with config := {} } := by
  obtain ⟨c, hc, h⟩ := ok_of_bind (ok_of_ofLibrary h)
  obtain ⟨t', ht, h⟩ := ok_of_bind h
  obtain ⟨⟨⟩, -, h⟩ := ok_of_bind h
  obtain rfl := Except.ok.inj h
  exact ⟨configures_of_loadConfig hc, by rw [ht, ← Template.config_of_ofFile ht]⟩

theorem unreadable_of_loadTemplate {f : Failure} (h : loadTemplate files template a.config = .error f) :
    Unreadable files template a := by
  obtain ⟨e, h⟩ := error_of_ofLibrary h
  rcases error_of_bind h with hc | ⟨c, hc, h⟩
  · unfold loadConfig at hc
    split at hc
    · cases hc
    · next name hconfig => exact .config hconfig hc
  · rcases error_of_bind h with ht | ⟨t, -, h⟩
    · exact .template ht
    · -- a configuration that was read is not refused again
      rw [Template.withConfig, (configures_of_loadConfig hc).valid] at h
      cases h

theorem scopes_of_loadScope (h : loadScope files a.context = .ok scope) : Scopes files scope a.context := by
  unfold loadScope at h
  split at h
  · next hcontext =>
    rw [hcontext]
    exact (Except.ok.inj h).symm
  · next name hcontext =>
    rw [hcontext]
    split at h
    · cases h
    · next text hfile =>
      split at h
      · cases h
      · next j hvalue => exact ⟨text, j, hfile, hvalue, ok_of_ofLibrary h⟩

theorem unreadable_of_loadScope {f : Failure} (h : loadScope files a.context = .error f) :
    Unreadable files template a := by
  unfold loadScope at h
  split at h
  · cases h
  · next name hcontext =>
    split at h
    · next hfile => exact .contextFile hcontext hfile
    · next hfile =>
      split at h
      · next hvalue => exact .contextText hcontext hfile hvalue
      · next hvalue =>
        obtain ⟨e, h⟩ := error_of_ofLibrary h
        exact .contextValue hcontext hfile hvalue h

theorem loads_of_load (h : load files template a = .ok (t, scope)) : Loads files template a t scope := by
  obtain ⟨t', ht, h⟩ := ok_of_bind h
  obtain ⟨scope', hscope, h⟩ := ok_of_bind h
  obtain ⟨rfl, rfl⟩ := Prod.mk.inj (Except.ok.inj h)
  obtain ⟨hconfig, hfile⟩ := loads_of_loadTemplate ht
  exact ⟨hconfig, hfile, scopes_of_loadScope hscope⟩

theorem unreadable_of_load {f : Failure} (h : load files template a = .error f) : Unreadable files template a := by
  rcases error_of_bind h with ht | ⟨t, -, h⟩
  · exact unreadable_of_loadTemplate ht
  · rcases error_of_bind h with hscope | ⟨scope, -, h⟩
    · exact unreadable_of_loadScope hscope
    · cases h

theorem Loads.readable (h : Loads files template a t scope) : ¬ Unreadable files template a := by
  obtain ⟨hconfig, htemplate, hscope⟩ := h
  rintro (⟨given, fails⟩ | fails | ⟨given, fails⟩ | ⟨given, file, fails⟩ | ⟨given, file, value, fails⟩)
  · rw [given] at hconfig
    cases hconfig.symm.trans fails
  · cases htemplate.symm.trans fails
  · rw [given] at hscope
    obtain ⟨text, j, hfile, -⟩ := hscope
    cases hfile.symm.trans fails
  · rw [given] at hscope
    obtain ⟨text, j, hfile, hvalue, -⟩ := hscope
    obtain rfl := Except.ok.inj (hfile.symm.trans file)
    cases hvalue.symm.trans fails
  · rw [given] at hscope
    obtain ⟨text, j, hfile, hvalue, hscope⟩ := hscope
    obtain rfl := Except.ok.inj (hfile.symm.trans file)
    obtain rfl := Except.ok.inj (hvalue.symm.trans value)
    cases hscope.symm.trans fails

end Command

end Stencil
