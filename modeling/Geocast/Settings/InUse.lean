import Geocast.Settings.Basic

/-!
# The settings in use

Settings are loaded once. They have a place, which is empty at first; `init` loads settings and puts
them there. Later calls are refused, whatever they would load, so the settings in use are the first
that could be loaded.

* `init_eq_ok_iff`, `settings?_of_init`: when a call succeeds, and that what it gives is in use.
* `init_of_some`: no later call succeeds or changes anything.
* `settings?_inits`: what is in use after some calls.
-/
namespace Geocast.Settings

/-- What settings are loaded from. -/
structure Sources where
  files : String → Option File
  env : List (String × String)
  options : Options

def Sources.load (s : Sources) : Except SettingsError Settings :=
  Settings.load s.files s.env s.options

/-- The place of the settings in use. -/
structure Place where
  settings? : Option Settings

namespace Place

def empty : Place := ⟨none⟩

/-- Loads settings and puts them into their place, unless there are some. -/
def init (p : Place) (s : Sources) : Place × Except SettingsError Settings :=
  match s.load, p.settings? with
  | .error e, _ => (p, .error e)
  | .ok _, some _ => (p, .error .inUse)
  | .ok loaded, none => (⟨some loaded⟩, .ok loaded)

variable {p : Place} {s : Sources} {loaded : Settings}

/-- A call succeeds if no settings are in use and they can be loaded. -/
theorem init_eq_ok_iff :
    (p.init s).2 = .ok loaded ↔ p.settings? = none ∧ s.load = .ok loaded := by
  unfold init
  split
  next hload => simp [hload]
  next hplace => simp [hplace]
  next hload hplace => simp [hload, hplace]

/-- What is in use stays so; what a call loads is in use from then on if nothing was. -/
theorem settings?_init (p : Place) (s : Sources) :
    (p.init s).1.settings? = p.settings?.or s.load.toOption := by
  unfold init
  split
  next hload => rw [hload]; cases p.settings? <;> rfl
  next hplace => rw [hplace]; rfl
  next hload hplace => rw [hload, hplace]; rfl

theorem settings?_of_init (h : (p.init s).2 = .ok loaded) :
    (p.init s).1.settings? = some loaded := by
  obtain ⟨hplace, hload⟩ := init_eq_ok_iff.1 h
  rw [settings?_init, hplace, hload]
  rfl

/-- Once settings are in use no call succeeds, and none changes them. -/
theorem init_of_some (h : p.settings? = some loaded) (s : Sources) :
    (p.init s).1.settings? = some loaded ∧ (p.init s).2.toOption = none := by
  refine ⟨by rw [settings?_init, h]; rfl, ?_⟩
  cases hinit : (p.init s).2 with
  | error e => rfl
  | ok given => cases h.symm.trans (init_eq_ok_iff.1 hinit).1

/-- After some calls the settings in use are those that were, or else the first that could be
loaded. -/
theorem settings?_inits (p : Place) (calls : List Sources) :
    (calls.foldl (fun p s => (p.init s).1) p).settings? =
      p.settings?.or (calls.findSome? fun s => s.load.toOption) := by
  induction calls generalizing p with
  | nil => simp
  | cons s calls ih =>
    rw [List.foldl_cons, ih, settings?_init, List.findSome?_cons]
    cases p.settings? <;> cases s.load.toOption <;> rfl

end Place

end Geocast.Settings
