import Lemonbuddy.Render.Basic

/-!
# Creating the modules

`controller::bootstrap_modules` reads, for each zone in the order `LEFT`, `CENTER`,
`RIGHT`, the space-separated module names of `modules-left`, `modules-center` and
`modules-right`. For each name it reads the module's `type`, constructs the module of
that type, sets it up and adds it to the event loop under the zone. Three ways out
differ:

* a module whose construction or `setup()` throws `module_error` is skipped, and the
  loop goes on: that is all the loop's `catch` takes;
* a name whose `type` is not one of the fifteen known ones throws
  `application_error("Unknown module: " + name)`, a name with no `type` at all lets
  the configuration's `key_error` through, and a construction or `setup()` that
  throws anything else lets that through: each ends `controller::bootstrap`, which
  calls `bootstrap_modules` last and catches none of them;
* when no module was added, `application_error("No modules created")`.

`bootstrapModules_spec` states the loop whole: the first name, over the three zones
in order, that ends the loop decides the error, whatever comes after it; otherwise
the modules added are the configured ones that are made, zone by zone in the order
they are named, and there must be one.

`string_util::split`, the configuration and the modules' constructors are not among
the sources: `ModuleSources` gives, for each, what `bootstrap_modules` sees of it,
and `Setup` the three ways a construction and its `setup()` can end.
The zone an `alignment` value stands for is the one the `switch` gives it, and the
loop's `i + 1` runs over `LEFT`, `CENTER`, `RIGHT`.
-/

namespace Lemonbuddy

namespace Controller

/-- The module types `bootstrap_modules` constructs. -/
def moduleTypes : List (List Char) :=
  ["internal/counter", "internal/backlight", "internal/xbacklight", "internal/battery",
    "internal/bspwm", "internal/cpu", "internal/date", "internal/memory", "internal/i3",
    "internal/mpd", "internal/volume", "internal/network", "custom/text", "custom/script",
    "custom/menu"].map String.toList

/-- The configuration key of a zone's module names. -/
def confkey : Alignment → List Char
  | .left => "modules-left".toList
  | .center => "modules-center".toList
  | .right => "modules-right".toList
  | .none => []

/-- How `controller::bootstrap` ends when `bootstrap_modules` throws: an
`application_error` with its message, the configuration's `key_error` for a
section and key with no value, or another exception, with its `what()`. -/
inductive BootstrapError
  | application (message : List Char)
  | key (sectionName key : List Char)
  | other (what : List Char)
  deriving DecidableEq, Repr

/-- How constructing a module and calling its `setup()` ends: the module is made, one
of them throws `module_error`, which the loop catches, or one of them throws anything
else, which leaves the loop. -/
inductive Setup
  | created
  | moduleError
  | error (e : BootstrapError)
  deriving DecidableEq, Repr

/-- What `bootstrap_modules` sees of the configuration, of `string_util::split` and of
the modules: the string set for a key of a section, the words of a string, and how
the module of a name and a type is constructed and set up. -/
structure ModuleSources where
  get : List Char → List Char → Option (List Char)
  split : List Char → List (List Char)
  setup : List Char → List Char → Setup

variable (M : ModuleSources)

/-- The section of a module's settings. -/
def moduleSection (name : List Char) : List Char :=
  "module/".toList ++ name

/-- The key of a module's type. -/
def typeKey : List Char :=
  "type".toList

/-- The inner loop of `bootstrap_modules` over the names of one zone, after the
modules `added` so far. -/
def addModules (align : Alignment) (added : List (Alignment × List Char)) :
    List (List Char) → Except BootstrapError (List (Alignment × List Char))
  | [] => .ok added
  | name :: names =>
    match M.get (moduleSection name) typeKey with
    | none => .error (.key (moduleSection name) typeKey)
    | some type =>
      if type ∈ moduleTypes then
        match M.setup name type with
        | .created => addModules align (added ++ [(align, name)]) names
        | .moduleError => addModules align added names
        | .error e => .error e
      else .error (.application ("Unknown module: ".toList ++ name))

/-- The module names of a zone: `m_conf.get<string>(bs, confkey, "")`, split at spaces. -/
def zoneNames (bs : List Char) (align : Alignment) : List (List Char) :=
  M.split ((M.get bs (confkey align)).getD [])

/-- `controller::bootstrap_modules`: the modules added to the event loop, each with its
zone, in the order they are added. -/
def bootstrapModules (bs : List Char) : Except BootstrapError (List (Alignment × List Char)) := do
  let added ← addModules M .left [] (zoneNames M bs .left)
  let added ← addModules M .center added (zoneNames M bs .center)
  let added ← addModules M .right added (zoneNames M bs .right)
  if added = [] then .error (.application "No modules created".toList) else .ok added

/-! ### The loop stated whole -/

/-- The error a name ends the loop with: no type, a type `bootstrap_modules` does not
know, or a construction or `setup()` that throws anything but `module_error`. -/
def nameError (name : List Char) : Option BootstrapError :=
  match M.get (moduleSection name) typeKey with
  | none => some (.key (moduleSection name) typeKey)
  | some type =>
    if type ∈ moduleTypes then
      match M.setup name type with
      | .error e => some e
      | _ => none
    else some (.application ("Unknown module: ".toList ++ name))

/-- The error of the first name that ends the loop. -/
def firstBad (names : List (List Char)) : Option BootstrapError :=
  names.findSome? (nameError M)

/-- The module of this name is constructed and set up. -/
def isCreated (name : List Char) : Bool :=
  match M.get (moduleSection name) typeKey with
  | some type => M.setup name type == .created
  | none => false

/-- The modules of a zone that are created, in order. -/
def created (align : Alignment) (names : List (List Char)) : List (Alignment × List Char) :=
  (names.filter (isCreated M)).map ((align, ·))

theorem firstBad_cons (name : List Char) (names : List (List Char)) :
    firstBad M (name :: names) = (nameError M name).or (firstBad M names) := by
  simp only [firstBad, List.findSome?_cons]
  cases nameError M name <;> rfl

theorem firstBad_append (l₁ l₂ : List (List Char)) :
    firstBad M (l₁ ++ l₂) = (firstBad M l₁).or (firstBad M l₂) := by
  simp only [firstBad, List.findSome?_append]

/-- **The inner loop.** Over one zone, the first name that ends the loop decides the
error; without one, the created modules are added in order. -/
theorem addModules_eq (align : Alignment) (added : List (Alignment × List Char)) (names : List (List Char)) :
    addModules M align added names =
      match firstBad M names with
      | some e => .error e
      | none => .ok (added ++ created M align names) := by
  induction names generalizing added with
  | nil => simp [addModules, firstBad, created]
  | cons name names ih =>
    simp only [addModules, firstBad_cons, nameError]
    cases hget : M.get (moduleSection name) typeKey with
    | none => rfl
    | some type =>
      by_cases hknown : type ∈ moduleTypes
      · simp only [hknown, if_true]
        cases hs : M.setup name type with
        | error e => rfl
        | _ =>
          simp only [ih, Option.none_or]
          cases firstBad M names <;> simp [created, List.filter_cons, isCreated, hget, hs]
      · simp [hknown]

/-- **What `bootstrap_modules` does.** The first name over the three zones, in order,
with no type, an unknown type, or a construction or `setup()` that throws anything
but `module_error` ends the bootstrap with its error, whatever follows it; otherwise
the modules added are the created ones, zone by zone in the order configured, those
whose construction or `setup()` throws `module_error` skipped, and `No modules
created` when there is none. -/
theorem bootstrapModules_spec (bs : List Char) :
    bootstrapModules M bs =
      match firstBad M (zoneNames M bs .left ++ zoneNames M bs .center ++ zoneNames M bs .right) with
      | some e => .error e
      | none =>
        let added := created M .left (zoneNames M bs .left) ++ created M .center (zoneNames M bs .center) ++
          created M .right (zoneNames M bs .right)
        if added = [] then .error (.application "No modules created".toList) else .ok added := by
  simp only [bootstrapModules, addModules_eq, firstBad_append]
  cases firstBad M (zoneNames M bs .left) <;> cases firstBad M (zoneNames M bs .center) <;>
    cases firstBad M (zoneNames M bs .right) <;> simp [bind, Except.bind, List.append_assoc]

end Controller

end Lemonbuddy
