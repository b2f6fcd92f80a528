import DspPatch.Proofs.Registry
import DspPatch.Proofs.Renaming

/-!
The order of a registry file has no influence on compilations. Definitions get their identities in the order in which they
are resolved, so that two files with the same entries in different orders give them different identities. But both
registries are linked, and a definition has one name in both. To go from its identity in one by its name to its identity
in the other is a renaming (`RegistryFile.renamed_of_perm`), which no compilation sees (`compile_eq_of_permuted`).
-/
namespace DspPatch

theorem Library.Standard.rename_definitions {ρ : Nat → Nat} {first first' : Nat}
    (identities : ∀ entry ∈ definitions first, ∀ entry' ∈ definitions first', entry.1 = entry'.1 → ρ entry.2.id = entry'.2.id) :
    (definitions first).map (fun entry => (entry.1, entry.2.rename ρ)) = definitions first' := by
  simp [definitions, names, core, msg, commons] at identities
  simp [definitions, names, Definition.rename_eq, core, msg, commons, identities]

namespace RegistryFile
variable {file file' : RegistryFile} {known known' : Table Definition} {r r' : Registry} {name : String} {d e : Definition}

theorem get?_eq_of_perm {α : Type} {t t' : Table α} (perm : t.entries.Perm t'.entries) (key : String) :
    t.get? key = t'.get? key := by
  ext value
  rw [Table.get?_eq_some_iff, Table.get?_eq_some_iff, perm.mem_iff]

/-- Names stand for one list of definitions. -/
theorem Refers.unique {names : List String} {ds es : List Definition} (first : Refers known names ds)
    (second : Refers known names es) : ds = es := by
  induction first generalizing es with
  | nil => cases second; rfl
  | cons isKnown _ ih =>
    cases second with
    | cons isKnown' rest =>
      cases isKnown.symm.trans isKnown'
      rw [ih rest]

theorem Refers.rename {ρ : Nat → Nat} {names : List String} {ds : List Definition} (refers : Refers known names ds)
    (each : ∀ d ∈ ds, ∀ name, known.get? name = some d → known'.get? name = some (d.rename ρ)) :
    Refers known' names (ds.map (Definition.rename ρ)) :=
  List.forall₂_map_right_iff.mpr (forall₂_of_mem refers (fun name _ d member isKnown => each d member name isKnown))

/-- The identity that the second table has under the name of an identity of the first. -/
def relabel (known known' : Table Definition) (id : Nat) : Nat :=
  ((known.entries.find? (fun entry => entry.2.id == id)).bind (fun entry => known'.get? entry.1)).elim 0 Definition.id

/-- An identity is known by one name. -/
theorem Linked.name_eq (linked : file.Linked known r) {other : String} (first : known.get? name = some d)
    (second : known.get? other = some e) (same : d.id = e.id) : name = other := by
  have once : (known.entries.map (fun entry => entry.2.id)).Nodup := by
    have nodup := linked.identities.nodup_iff.mpr List.nodup_range'
    rwa [Table.values, List.map_map] at nodup
  exact congrArg Prod.fst
    (List.inj_on_of_nodup_map once (Table.get?_eq_some_iff.mp first) (Table.get?_eq_some_iff.mp second) same)

theorem Linked.relabel_eq (linked : file.Linked known r) (isKnown : known.get? name = some d)
    (isKnown' : known'.get? name = some e) : relabel known known' d.id = e.id := by
  unfold relabel
  cases found : known.entries.find? (fun entry => entry.2.id == d.id) with
  | none => exact absurd (BEq.refl d.id) (List.find?_eq_none.mp found _ (Table.get?_eq_some_iff.mp isKnown))
  | some entry =>
    have same : entry.2.id = d.id := by simpa using List.find?_some found
    have named := linked.name_eq (Table.get?_eq_some_iff.mpr (List.mem_of_find?_eq_some found)) isKnown same
    rw [Option.bind_some, named, isKnown', Option.elim_some]

theorem Linked.type_missing (linked : file.Linked known r) {type : String} (missing : file.nodes.get? type = none) :
    r.types.get? type = none := by
  refine Option.eq_none_iff_forall_ne_some.mpr (fun i stored => ?_)
  exact Table.not_mem_keys_of_get? missing (linked.types ▸ Table.mem_keys_of_get? stored)

section Permuted
variable (linked : file.Linked known r) (linked' : file'.Linked known' r')
include linked linked'

theorem rename_standard : (Library.Standard.definitions r.first).map
    (fun entry => (entry.1, entry.2.rename (relabel known known'))) = Library.Standard.definitions r'.first := by
  refine Library.Standard.rename_definitions (fun entry member entry' member' same => ?_)
  exact linked.relabel_eq (linked.standard entry member) (same ▸ linked'.standard entry' member')

variable (globals : file.globals.entries.Perm file'.globals.entries)
include globals

/-- What one registry knows by a name the other one knows by it, but for identities. -/
theorem get?_rename (isKnown : known.get? name = some d) : known'.get? name = some (d.rename (relabel known known')) := by
  -- the dependencies of a definition are renamed before it, as names of the file lead to them in both registries
  induction d using Definition.induction generalizing name with
  | step d ih =>
    rcases linked.origin isKnown with standard | ⟨g, found, makes⟩
    · refine linked'.standard (name, _) ?_
      rw [← rename_standard linked linked']
      exact List.mem_map_of_mem standard
    · obtain ⟨d', isKnown', makes'⟩ := linked'.globals ((get?_eq_of_perm globals name).symm.trans found)
      have identity := linked.relabel_eq isKnown isKnown'
      have dependencies := makes'.dependencies.unique (makes.dependencies.rename (fun e needed _ => ih e needed))
      obtain ⟨code, parsed, same⟩ := makes.code
      obtain ⟨code', parsed', same'⟩ := makes'.code
      cases parsed.symm.trans parsed'
      have renamed : d.rename (relabel known known') = d' := calc
        d.rename (relabel known known') = (g.definition d.id code d.dependencies).rename (relabel known known') :=
          congrArg _ same
        _ = g.definition d'.id code d'.dependencies := by rw [Definition.rename_eq, dependencies, ← identity]; rfl
        _ = d' := same'.symm
      rw [isKnown', renamed]

theorem implementation_rename (nodes : file.nodes.entries.Perm file'.nodes.entries) (type : String) :
    r'.types.get? type = (r.types.get? type).map (Implementation.rename (relabel known known')) := by
  cases found : file.nodes.get? type with
  | none =>
    rw [linked.type_missing found, linked'.type_missing ((get?_eq_of_perm nodes type).symm.trans found), Option.map_none]
  | some t =>
    obtain ⟨i, stored, makes, refers⟩ := linked.nodes found
    obtain ⟨i', stored', makes', refers'⟩ := linked'.nodes ((get?_eq_of_perm nodes type).symm.trans found)
    have dependencies := refers'.unique (refers.rename (fun _ _ _ => get?_rename linked linked' globals))
    have templates : { i' with dependencies := [] } = { i with dependencies := [] } :=
      congrArg Prod.fst (Except.ok.inj (makes'.symm.trans makes))
    have renamed : i' = i.rename (relabel known known') := calc
      i' = { ({ i' with dependencies := [] } : Implementation) with dependencies := i'.dependencies } := rfl
      _ = i.rename (relabel known known') := by rw [templates, dependencies]; rfl
    rw [stored, stored', Option.map_some, renamed]

/-- Files with the same entries load registries with the same types and definitions, but for identities. -/
theorem renamed_of_perm (nodes : file.nodes.entries.Perm file'.nodes.entries) :
    r.Renamed (relabel known known') r' := by
  refine ⟨?_, implementation_rename linked linked' globals nodes, fun {d e} held held' same => ?_⟩
  · rw [Registry.standard, Registry.standard, ← rename_standard linked linked', List.map_map, List.map_map]
    rfl
  · obtain ⟨name, isKnown⟩ := linked.known_of_holds held
    obtain ⟨other, otherKnown⟩ := linked.known_of_holds held'
    have isKnown' := get?_rename linked linked' globals isKnown
    have otherKnown' := get?_rename linked linked' globals otherKnown
    obtain rfl : name = other := linked'.name_eq isKnown' otherKnown' (by rw [Definition.id_rename, Definition.id_rename, same])
    cases isKnown.symm.trans otherKnown
    rfl

end Permuted
end RegistryFile

/-- Two registry texts whose files differ in the order of their entries alone compile every patch with every settings
    alike, wherever the counter of identities stood when they were read: to the same error of the same pass, or to the same
    program with the same symbols and the same provenance. -/
theorem compile_eq_of_permuted {first first' : Nat} {text text' : String} {file file' : RegistryFile} {r r' : Registry}
    (reads : RegistryFile.decode.run text = some file) (reads' : RegistryFile.decode.run text' = some file')
    (globals : file.globals.entries.Perm file'.globals.entries) (nodes : file.nodes.entries.Perm file'.nodes.entries)
    (loads : Registry.read first text = .ok r) (loads' : Registry.read first' text' = .ok r') (g : Graph)
    (request : SettingsRequest) : compile g r request = compile g r' request := by
  rw [Registry.read, reads] at loads
  rw [Registry.read, reads'] at loads'
  obtain ⟨_, known, linked⟩ := (file.registry_linked first).of_eq_ok loads
  obtain ⟨_, known', linked'⟩ := (file'.registry_linked first').of_eq_ok loads'
  exact compile_eq_of_renamed (RegistryFile.renamed_of_perm linked linked' globals nodes) g request

/-! The output depends on two definitions, one of which depends on the other. -/

def ramp : RegistryFile.Global := ⟨"ramp", ["step"], "$\x7bns.step\x7d = $\x7bclip.bound\x7d / 2", ["clip"], [], []⟩

def clip : RegistryFile.Global := ⟨"clip", ["bound"], "$\x7bns.bound\x7d = 1", [], [], []⟩

/-- A node type with loop code. -/
def looping (loop : String) (dependencies : List String) : RegistryFile.NodeType :=
  ⟨{}, [], [], none, none, some loop, ∅, ∅, dependencies⟩

def saw : RegistryFile.NodeType := looping "$\x7bouts.0\x7d = $\x7bclip.bound\x7d" ["clip"]

def dac : RegistryFile.NodeType := looping "play($\x7bins.0\x7d * $\x7bramp.step\x7d)" ["ramp", "clip"]

def rampFirst : RegistryFile := ⟨.ofList [("ramp", ramp), ("clip", clip)], .ofList [("saw~", saw), ("dac~", dac)]⟩

def clipFirst : RegistryFile := ⟨.ofList [("clip", clip), ("ramp", ramp)], .ofList [("dac~", dac), ("saw~", saw)]⟩

def rampEntry : String :=
  "\"ramp\":\x7b\"namespace\":\"ramp\",\"locals\":[\"step\"],\"code\":\"$\x7bns.step\x7d = $\x7bclip.bound\x7d / 2\"," ++
    "\"dependencies\":[\"clip\"]\x7d"

def clipEntry : String :=
  "\"clip\":\x7b\"namespace\":\"clip\",\"locals\":[\"bound\"],\"code\":\"$\x7bns.bound\x7d = 1\"\x7d"

def sawEntry : String := "\"saw~\":\x7b\"loop\":\"$\x7bouts.0\x7d = $\x7bclip.bound\x7d\",\"dependencies\":[\"clip\"]\x7d"

def dacEntry : String :=
  "\"dac~\":\x7b\"loop\":\"play($\x7bins.0\x7d * $\x7bramp.step\x7d)\",\"dependencies\":[\"ramp\",\"clip\"]\x7d"

def rampText : String :=
  "\x7b\"globals\":\x7b" ++ rampEntry ++ "," ++ clipEntry ++ "\x7d,\"nodes\":\x7b" ++ sawEntry ++ "," ++ dacEntry ++ "\x7d\x7d"

def clipText : String :=
  "\x7b\"globals\":\x7b" ++ clipEntry ++ "," ++ rampEntry ++ "\x7d,\"nodes\":\x7b" ++ dacEntry ++ "," ++ sawEntry ++ "\x7d\x7d"

theorem decode_rampText : RegistryFile.decode.run rampText = some rampFirst := by
  unfold Json.Decoder.run Json.Document.read rampText
  simp only [String.toList_append]
  decide +kernel

theorem decode_clipText : RegistryFile.decode.run clipText = some clipFirst := by
  unfold Json.Decoder.run Json.Document.read clipText
  simp only [String.toList_append]
  decide +kernel

def sawPatch : Graph := [
  { (Node.bare "saw" "saw~").withOutlet "0" .signal with sinks := .ofList [("0", [⟨"dac", "0"⟩])] },
  { (Node.bare "dac" "dac~").withInlet "0" .signal with
    sources := .ofList [("0", [⟨"saw", "0"⟩])], isPullingSignal := true }].foldl Graph.insert .empty

/-- The identities of both definitions differ, and still the program has one before the other and the same loop. -/
theorem compile_eq_of_permuted_ramp : ∃ r r' p, Registry.read 0 rampText = .ok r ∧ Registry.read 7 clipText = .ok r' ∧
    r.identities "dac~" = some [(3, [4]), (4, [])] ∧ r'.identities "dac~" = some [(11, [10]), (10, [])] ∧
    compile sawPatch r {} = .ok p ∧ compile sawPatch r' {} = .ok p ∧ p.traversal = ["saw", "dac"] ∧
    ["clip_bound = 1", "ramp_step = clip_bound / 2"] <:+: p.program.lines "" ∧
    ["    saw_OUTS_0 = clip_bound", "    play(saw_OUTS_0 * ramp_step)"] <:+: p.program.lines "" := by
  have globals : rampFirst.globals.entries.Perm clipFirst.globals.entries := by
    rw [rampFirst, clipFirst, Table.entries_ofList (by decide), Table.entries_ofList (by decide)]
    exact .swap _ _ _
  have nodes : rampFirst.nodes.entries.Perm clipFirst.nodes.entries := by
    rw [rampFirst, clipFirst, Table.entries_ofList (by decide), Table.entries_ofList (by decide)]
    exact .swap _ _ _
  have shown : (rampFirst.registry 0).toOption.any (fun r => r.identities "dac~" = some [(3, [4]), (4, [])] ∧
      (compile sawPatch r {}).toOption.any (fun p => p.traversal = ["saw", "dac"] ∧
        ["clip_bound = 1", "ramp_step = clip_bound / 2"] <:+: p.program.lines "" ∧
        ["    saw_OUTS_0 = clip_bound", "    play(saw_OUTS_0 * ramp_step)"] <:+: p.program.lines "")) = true := by
    decide +kernel
  have shown' : (clipFirst.registry 7).toOption.any (fun r => r.identities "dac~" = some [(11, [10]), (10, [])]) = true := by
    decide +kernel
  obtain ⟨r, loaded, holds⟩ := (Option.any_eq_true _ _).mp shown
  obtain ⟨r', loaded', holds'⟩ := (Option.any_eq_true _ _).mp shown'
  have made := Registry.read_eq_ok_iff.mpr ⟨rampFirst, decode_rampText, toOption_eq_some_iff.mp loaded⟩
  have made' := Registry.read_eq_ok_iff.mpr ⟨clipFirst, decode_clipText, toOption_eq_some_iff.mp loaded'⟩
  obtain ⟨identities, compiles⟩ := of_decide_eq_true holds
  obtain ⟨p, compiled, shape⟩ := (Option.any_eq_true _ _).mp compiles
  have same := compile_eq_of_permuted decode_rampText decode_clipText globals nodes made made' sawPatch {}
  have program : compile sawPatch r {} = .ok p := toOption_eq_some_iff.mp compiled
  exact ⟨r, r', p, made, made', identities, of_decide_eq_true holds', program, same ▸ program, of_decide_eq_true shape⟩

end DspPatch
