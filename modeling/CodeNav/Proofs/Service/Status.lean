import CodeNav.Proofs.Text.Pieces
import CodeNav.Proofs.Workspace.Containment
import CodeNav.Service.Http
import Mathlib.Data.List.Infix

/-!
# The status of a failed lookup

The status is read off the wording of the failure, and the wording holds what the request names.
**Four of the five checks have one status** (`failureStatus_of_isFault`): their own words are among
the marks that are looked for, whatever stands around them. The fifth, a path outside of the root,
has no mark among its own words, so its status depends on the path and on the root
(`marked_outsideRoot_iff`): no mark can begin in one of them and end beyond it (`Apart`).

So two requests that fail at the same check get the same status, unless the check is that one, the
root holds no mark, and the path of one of them does (`status_eq_iff`).
-/

namespace CodeNav

/-! ## Texts that do not run into each other -/

namespace Text

/-- A mark neither runs into a text from the front, nor out of it behind, nor stands in it, nor
around it. -/
def Apart (mark sep : List Char) : Prop :=
  (∀ v ∈ mark.tails, v ≠ [] → ¬ v <+: sep) ∧ (∀ t ∈ mark.inits, t ≠ [] → ¬ t <:+ sep) ∧
    ¬ mark <:+: sep ∧ ¬ sep <:+: mark

instance (mark sep : List Char) : Decidable (Apart mark sep) :=
  inferInstanceAs (Decidable (_ ∧ _ ∧ _ ∧ _))

/-- **A mark that is kept apart stands on one side or on the other.** -/
theorem infix_append_iff {mark sep a b : List Char} (h : Apart mark sep) :
    mark <:+: a ++ (sep ++ b) ↔ mark <:+: a ∨ mark <:+: b := by
  obtain ⟨hinto, hout, hin, haround⟩ := h
  constructor
  · rintro ⟨x, y, hxy⟩
    rw [List.append_assoc] at hxy
    rcases List.append_eq_append_iff.mp hxy with ⟨a', rfl, hrest⟩ | ⟨x', rfl, hrest⟩
    · -- the mark begins in `a`
      rcases List.append_eq_append_iff.mp hrest with ⟨u, rfl, -⟩ | ⟨v, rfl, hbehind⟩
      · exact .inl ⟨x, u, by simp⟩
      · rcases v with _ | ⟨c, v⟩
        · exact .inl ⟨x, [], by simp⟩
        · exfalso
          rcases List.append_eq_append_iff.mp hbehind with ⟨w, hw, -⟩ | ⟨w, hw, -⟩
          · exact haround ⟨a', w, by rw [hw, List.append_assoc]⟩
          · exact hinto _ ((List.mem_tails _ _).mpr (List.suffix_append _ _)) (by simp) ⟨w, hw.symm⟩
    · -- the mark begins behind `a`
      rcases List.append_eq_append_iff.mp hrest with ⟨z, rfl, hb⟩ | ⟨t, hsep, hmark⟩
      · exact .inr ⟨z, y, by rw [hb, List.append_assoc]⟩
      · rcases List.append_eq_append_iff.mp hmark with ⟨z, ht, -⟩ | ⟨z, hsplit, hb⟩
        · exact absurd ⟨x', z, by rw [hsep, ht, List.append_assoc]⟩ hin
        · by_cases hnil : t = []
          · exact .inr ⟨[], y, by rw [hb, hsplit, hnil, List.nil_append, List.nil_append]⟩
          · exact absurd ⟨x', hsep.symm⟩
              (hout t ((List.mem_inits _ _).mpr ⟨z, hsplit.symm⟩) hnil)
  · rintro (hmark | hmark)
    · exact hmark.trans (List.prefix_append _ _).isInfix
    · exact hmark.trans ((List.suffix_append _ _).trans (List.suffix_append _ _)).isInfix

end Text

namespace Http

/-! ## The marks of a wording -/

/-- A wording that holds a mark of an avoidable failure. -/
def Marked (message : String) : Prop := ∃ mark ∈ avoidable, mark.toList <:+: message.toList

instance (message : String) : Decidable (Marked message) :=
  inferInstanceAs (Decidable (∃ mark ∈ avoidable, mark.toList <:+: message.toList))

theorem ne_nil_of_mem_avoidable {mark : String} (h : mark ∈ avoidable) : mark.toList ≠ [] := by
  revert mark
  decide

theorem failureStatus_eq (message : String) :
    failureStatus message = if Marked message then 400 else 500 := by
  have hmarked : (avoidable.any fun mark => Text.occurs mark.toList message.toList) = true ↔
      Marked message := by
    rw [List.any_eq_true]
    refine exists_congr fun mark => and_congr_right fun hmem => ?_
    exact Text.occurs_iff (ne_nil_of_mem_avoidable hmem)
  simp only [failureStatus, hmarked]

/-- A wording that begins with a marked text is marked. -/
theorem Marked.append {front : String} (h : Marked front) (back : String) :
    Marked (front ++ back) := by
  obtain ⟨mark, hmem, hmark⟩ := h
  refine ⟨mark, hmem, ?_⟩
  rw [String.toList_append]
  exact hmark.trans (List.prefix_append _ _).isInfix

theorem message_outsideRoot (file root : String) :
    (WorkspaceFault.outsideRoot file root).message =
      file ++ " is outside " ++ root ++ ": prefix not found" := rfl

/-- **The words about a path outside of the root are no marks**, and no mark runs into them. -/
theorem marked_outsideRoot_iff (file root : String) :
    Marked (WorkspaceFault.outsideRoot file root).message ↔ Marked file ∨ Marked root := by
  have hapart : ∀ mark ∈ avoidable, Text.Apart mark.toList " is outside ".toList ∧
      Text.Apart mark.toList ": prefix not found".toList := by
    decide +kernel
  have hone : ∀ mark ∈ avoidable,
      (mark.toList <:+: (WorkspaceFault.outsideRoot file root).message.toList ↔
        mark.toList <:+: file.toList ∨ mark.toList <:+: root.toList) := by
    intro mark hmem
    obtain ⟨hfront, hbehind⟩ := hapart mark hmem
    have hwords : (WorkspaceFault.outsideRoot file root).message.toList = file.toList ++
        (" is outside ".toList ++ (root.toList ++ (": prefix not found".toList ++ []))) := by
      simp only [message_outsideRoot, String.toList_append, List.append_assoc, List.append_nil]
    rw [hwords, Text.infix_append_iff hfront, Text.infix_append_iff hbehind, List.infix_nil]
    simp [ne_nil_of_mem_avoidable hmem]
  constructor
  · rintro ⟨mark, hmem, hmark⟩
    exact ((hone mark hmem).mp hmark).imp (⟨mark, hmem, ·⟩) (⟨mark, hmem, ·⟩)
  · rintro (⟨mark, hmem, hmark⟩ | ⟨mark, hmem, hmark⟩)
    · exact ⟨mark, hmem, (hone mark hmem).mpr (.inl hmark)⟩
    · exact ⟨mark, hmem, (hone mark hmem).mpr (.inr hmark)⟩

end Http

/-! ## The check that a request fails at -/

/-- The checks that a request goes through, in their order. -/
inductive Check where
  | blankPath
  | outsideRoot
  | invalidPath
  | unreadableFile
  | noProfile
  deriving DecidableEq, Repr

/-- The check that a fault comes from, if it is about a request. -/
def WorkspaceFault.check? : WorkspaceFault → Option Check
  | .badRoot .. | .noRepositoryName | .unreadableIndex .. | .invalidIndex .. => none
  | .pathRequired => some .blankPath
  | .outsideRoot .. => some .outsideRoot
  | .invalidPath .. => some .invalidPath
  | .unreadableFile .. => some .unreadableFile
  | .noProfile .. => some .noProfile

/-- A fault of a request to a workspace, and what it names. -/
inductive IsFault (w : Workspace) (r : ServiceRequest) : WorkspaceFault → Prop
  | blankPath : IsFault w r .pathRequired
  | outsideRoot : IsFault w r (.outsideRoot r.path w.config.root)
  | invalidPath : IsFault w r (.invalidPath r.path)
  | unreadableFile (path : String) (why : FileFault) : IsFault w r (.unreadableFile path why)
  | noProfile (path : String) : IsFault w r (.noProfile path)

section Lookup

variable {τ : Type} {w : Workspace} {tree : FileTree} {tool : SearchTool τ} {s : ServiceState τ}
  {operation : Operation} {r : ServiceRequest} {fault : WorkspaceFault}

theorem isFault_of_relativePath (h : w.relativePath r.path = .error fault) : IsFault w r fault := by
  rw [Workspace.relativePath] at h
  cases hunder : w.underRoot? r.path with
  | none =>
    rw [hunder] at h
    cases h
    exact .outsideRoot
  | some path =>
    simp only [hunder] at h
    split at h
    · cases h
      exact .invalidPath
    · cases h

theorem isFault_of_document {path : String} {text language : Option String}
    (h : w.document tree path text language = .error fault) : IsFault w r fault := by
  unfold Workspace.document at h
  -- the file is read unless there is a text, then the profile is looked for
  cases text with
  | some text =>
    cases hprofile : w.registry.resolve? language path with
    | none =>
      rw [hprofile] at h
      cases h
      exact .noProfile path
    | some profile =>
      rw [hprofile] at h
      cases h
  | none =>
    cases hread : tree.readText (Path.join w.config.root.toList path.toList) with
    | error why =>
      simp only [hread] at h
      cases h
      exact .unreadableFile _ why
    | ok text =>
      cases hprofile : w.registry.resolve? language path with
      | none =>
        simp only [hread, hprofile] at h
        cases h
        exact .noProfile path
      | some profile =>
        simp only [hread, hprofile] at h
        cases h

/-- Only a document that cannot be opened makes a run fail. -/
theorem document_of_run {request : LookupRequest} {p : Provider} {m : Machine τ}
    (h : (w.run tree tool request p m).1 = .error fault) :
    w.document tree request.path request.text request.language = .error fault := by
  rw [Workspace.run] at h
  -- no answer is looked into, so it is left open what the answers are
  obtain ⟨answer, hanswer⟩ : ∃ answer, answer = Provider.lookup (w.world tree tool) w.sources :=
    ⟨_, rfl⟩
  rw [← hanswer] at h
  cases hdocument : w.document tree request.path request.text request.language with
  | error fault' =>
    rw [hdocument] at h
    cases h
    rfl
  | ok document =>
    rw [hdocument] at h
    cases h

/-- **A request that fails fails at one of the checks.** -/
theorem isFault_of_lookup (h : (s.lookup w tree tool operation r).1 = .error fault) :
    IsFault w r fault := by
  unfold ServiceState.lookup at h
  by_cases hblank : Text.isBlankText r.path = true
  · rw [if_pos hblank] at h
    cases h
    exact .blankPath
  · rw [if_neg hblank] at h
    cases hpath : w.relativePath r.path with
    | error fault' =>
      rw [hpath] at h
      cases h
      exact isFault_of_relativePath hpath
    | ok path =>
      rw [hpath] at h
      exact isFault_of_document (document_of_run h)

end Lookup

namespace Http

/-! ## The status -/

/-- **The status of a failure.** It is the fault of the service only if the path is outside of the
root, and neither of them holds a mark. -/
theorem failureStatus_of_isFault {w : Workspace} {r : ServiceRequest} {fault : WorkspaceFault}
    (h : IsFault w r fault) : failureStatus fault.message =
      if fault.check? = some .outsideRoot ∧ ¬ Marked r.path ∧ ¬ Marked w.config.root then 500
      else 400 := by
  have hown : ∀ fault : WorkspaceFault, fault.check? ≠ some .outsideRoot →
      Marked fault.message → failureStatus fault.message =
        if fault.check? = some .outsideRoot ∧ ¬ Marked r.path ∧ ¬ Marked w.config.root then 500
        else 400 := by
    intro fault hcheck hmarked
    rw [failureStatus_eq, if_pos hmarked, if_neg fun h => hcheck h.1]
  have hmarks : Marked "path is required" ∧ Marked "invalid file path " ∧
      Marked "failed to read " ∧ Marked "no language profile for " := by
    decide +kernel
  obtain ⟨hblank, hinvalid, hunreadable, hprofile⟩ := hmarks
  cases h with
  | blankPath => exact hown _ (by decide) hblank
  | outsideRoot =>
    rw [failureStatus_eq, WorkspaceFault.check?]
    simp only [marked_outsideRoot_iff, ← not_or, true_and, ite_not]
  | invalidPath => exact hown _ nofun (hinvalid.append r.path)
  | unreadableFile path why => exact hown _ nofun (((hunreadable.append path).append ": ").append _)
  | noProfile path => exact hown _ nofun (hprofile.append path)

/-- What a request over HTTP asks for, if it is a lookup that can be read. -/
def asked? (q : Request) : Option (Operation × ServiceRequest) :=
  match route? (String.ofList (pathOf q.target.toList)) with
  | some (.lookup operation) =>
    if q.method = "POST" then (readBody q).toOption.map (operation, ·) else none
  | _ => none

section Handle

variable {σ τ : Type} {w : Workspace} {tree : FileTree} {tool : SearchTool τ} {s : ServiceState τ}
  {q : Request} {operation : Operation} {r : ServiceRequest} {fault : WorkspaceFault}

/-- A lookup that can be read is answered by its outcome. -/
theorem handle_of_asked? (h : asked? q = some (operation, r)) :
    (handle w tree tool s q).1 = ofOutcome (s.lookup w tree tool operation r).1 := by
  rw [asked?] at h
  rw [handle]
  cases hroute : route? (String.ofList (pathOf q.target.toList)) with
  | none =>
    rw [hroute] at h
    cases h
  | some route =>
    cases route with
    | health | counters =>
      rw [hroute] at h
      cases h
    | lookup operation' =>
      simp only [hroute] at h
      by_cases hmethod : q.method = "POST"
      · rw [if_pos hmethod, Option.map_eq_some_iff] at h
        obtain ⟨r', hbody, hpair⟩ := h
        cases hpair
        have hread : readBody q = .ok r := by
          cases hbody' : readBody q with
          | error status =>
            rw [hbody'] at hbody
            cases hbody
          | ok r' =>
            rw [hbody'] at hbody
            rw [Option.some.inj hbody]
        obtain ⟨answer, hanswer⟩ : ∃ answer, answer = s.lookup w tree tool operation r := ⟨_, rfl⟩
        have htakes : (Route.lookup operation).takes q.method = true := decide_eq_true hmethod
        simp only [htakes, hread, ← hanswer, Bool.not_true, Bool.false_eq_true, if_false]
      · rw [if_neg hmethod] at h
        cases h

/-- The status of a lookup that fails. -/
theorem handle_status (hasked : asked? q = some (operation, r))
    (h : (s.lookup w tree tool operation r).1 = .error fault) :
    (handle w tree tool s q).1.status =
      if fault.check? = some .outsideRoot ∧ ¬ Marked r.path ∧ ¬ Marked w.config.root then 500
      else 400 := by
  rw [handle_of_asked? hasked, h, ← failureStatus_of_isFault (isFault_of_lookup h)]
  rfl

/-- **One check, one status**, unless the check is for a path outside of the root: there it depends
on the marks that the paths and the root hold. -/
theorem status_eq_iff {tree' : FileTree} {tool' : SearchTool σ} {s' : ServiceState σ} {q' : Request}
    {operation' : Operation} {r' : ServiceRequest} {fault' : WorkspaceFault}
    (hasked : asked? q = some (operation, r)) (hasked' : asked? q' = some (operation', r'))
    (h : (s.lookup w tree tool operation r).1 = .error fault)
    (h' : (s'.lookup w tree' tool' operation' r').1 = .error fault')
    (hsame : fault.check? = fault'.check?) :
    (handle w tree tool s q).1.status = (handle w tree' tool' s' q').1.status ↔
      (fault.check? = some .outsideRoot → ¬ Marked w.config.root →
        (Marked r.path ↔ Marked r'.path)) := by
  rw [handle_status hasked h, handle_status hasked' h', ← hsame]
  by_cases hcheck : fault.check? = some .outsideRoot
  · by_cases hroot : Marked w.config.root
    · simp [hroot]
    · by_cases hpath : Marked r.path <;> by_cases hpath' : Marked r'.path <;>
        simp [hcheck, hroot, hpath, hpath']
  · simp [hcheck]

end Handle

/-- A request for the definition of what stands at the beginning of a file. -/
def posted (path : String) : Request where
  method := "POST"
  target := "/definition"
  contentType := some "application/json"
  body := "\x7b\"path\":\"" ++ path ++ "\",\"line\":0,\"character\":0\x7d"

/-- No files, no search tool, and no requests so far. -/
def idle : FileTree × SearchTool Unit × ServiceState Unit :=
  (⟨[], []⟩, ⟨fun _ s => (none, s)⟩, ⟨.empty 1, [], ⟨0, (), .new, []⟩⟩)

theorem status_eq_outside :
    (handle (Workspace.bare "/r") idle.1 idle.2.1 idle.2.2 (posted "/etc/a.go")).1.status =
      (handle (Workspace.bare "/r") idle.1 idle.2.1 idle.2.2 (posted "/b.go")).1.status := by
  have hasked : asked? (posted "/etc/a.go") =
      some (.definition, ⟨"/etc/a.go", 0, 0, none, none, none, none⟩) := by decide +kernel
  have hasked' : asked? (posted "/b.go") =
      some (.definition, ⟨"/b.go", 0, 0, none, none, none, none⟩) := by decide +kernel
  have hfault : (idle.2.2.lookup (Workspace.bare "/r") idle.1 idle.2.1 .definition
      ⟨"/etc/a.go", 0, 0, none, none, none, none⟩).1 = .error (.outsideRoot "/etc/a.go" "/r") := by
    rfl
  have hfault' : (idle.2.2.lookup (Workspace.bare "/r") idle.1 idle.2.1 .definition
      ⟨"/b.go", 0, 0, none, none, none, none⟩).1 = .error (.outsideRoot "/b.go" "/r") := by
    rfl
  refine (status_eq_iff hasked hasked' hfault hfault' rfl).mpr fun _ _ => ?_
  decide +kernel

/-- Two files outside of the root, one of which has a mark in its name. -/
theorem outside_not_alike :
    ¬ ∀ (w : Workspace) (tree : FileTree) (tool : SearchTool Unit) (s : ServiceState Unit)
      (q q' : Request) (operation operation' : Operation) (r r' : ServiceRequest)
      (fault fault' : WorkspaceFault), asked? q = some (operation, r) →
      asked? q' = some (operation', r') → (s.lookup w tree tool operation r).1 = .error fault →
      (s.lookup w tree tool operation' r').1 = .error fault' → fault.check? = fault'.check? →
      (handle w tree tool s q).1.status = (handle w tree tool s q').1.status := by
  intro hall
  have hsame := hall (Workspace.bare "/r") idle.1 idle.2.1 idle.2.2 (posted "/etc/a.go")
    (posted "/failed to read/a.go") .definition .definition
    ⟨"/etc/a.go", 0, 0, none, none, none, none⟩
    ⟨"/failed to read/a.go", 0, 0, none, none, none, none⟩
    (.outsideRoot "/etc/a.go" "/r") (.outsideRoot "/failed to read/a.go" "/r") (by decide +kernel)
    (by decide +kernel) (by rfl) (by rfl) rfl
  exact absurd hsame (by decide +kernel)

end Http

end CodeNav
