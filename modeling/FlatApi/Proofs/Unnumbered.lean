import FlatApi.Proofs.Jobs

/-!
# Symbols without numbers

The registry puts a number behind a base only if the names that go with it are taken.  If all names
that the jobs of a walk ask for are different, none is taken when its turn comes, as the registry
then holds the names asked for before and nothing else (`answers_of_nodup`).

So every export has the symbols that are read off its node (`exports_of_nodup`,
`exportedIdeally_of_job`).  They do not depend on what was exported before.
-/

namespace FlatApi

open Forest (Node)
open FlatApi.Symbol (Registry sanitize)
open FlatApi.Symbol.Registry (Request)

/-! ## Requests -/

namespace Symbol.Registry

namespace Request

/-- The name that is asked for, without a number. -/
def idealName (q : Request) : String := sanitize q.base

/-- What is issued when the request is answered with the name that is asked for. -/
def idealClaims (q : Request) : List String := q.claimsOf q.idealName

end Request

section Histories

theorem eraseDups_of_nodup {names : List String} (h : names.Nodup) : names.eraseDups = names := by
  induction names with
  | nil => rfl
  | cons name names ih =>
    obtain ⟨hname, hnames⟩ := List.nodup_cons.mp h
    have hothers : names.filter (fun n => !n == name) = names := by
      rw [List.filter_eq_self]
      intro n hn
      simpa using ne_of_mem_of_not_mem hn hname
    rw [List.eraseDups_cons, hothers, ih hnames]

/-- A request for names that are free is answered without a number. -/
theorem issue_of_nodup {r : Registry} {q : Request} (h : (r.names ++ q.idealClaims).Nodup) :
    (r.issue q).1 = q.idealName ∧ (r.issue q).2.names = r.names ++ q.idealClaims := by
  obtain ⟨-, hclaims, happart⟩ := List.nodup_append'.mp h
  have hname : (r.issue q).1 = q.idealName := (issue_isAnswer r q).unnumbered happart.symm
  refine ⟨hname, ?_⟩
  rw [issue_names, hname, ← Request.idealClaims, eraseDups_of_nodup hclaims]

/-- If all names asked for are different, each request is answered with the name that it asks for,
and the registry holds the names asked for before. -/
theorem answers_of_nodup {qs : List Request} :
    ∀ {r : Registry}, (r.names ++ qs.flatMap Request.idealClaims).Nodup →
      r.answers qs = qs.map Request.idealName ∧
        (r.after qs).names = r.names ++ qs.flatMap Request.idealClaims := by
  induction qs with
  | nil => exact fun _ => ⟨rfl, (List.append_nil _).symm⟩
  | cons q qs ih =>
    intro r h
    rw [List.flatMap_cons, ← List.append_assoc] at h
    obtain ⟨hname, hnames⟩ := issue_of_nodup h.of_append_left
    -- the names held now are again different from all that is asked for later
    rw [← hnames] at h
    obtain ⟨hanswers, hafter⟩ := ih h
    constructor
    · rw [answers, hname, hanswers, List.map_cons]
    · rw [List.flatMap_cons, ← List.append_assoc, ← hnames]
      exact hafter

end Histories

end Symbol.Registry

/-! ## Jobs -/

section Drafts

/-- The names that go with a call, all of which are symbols. -/
def CallDraft.idealNames (d : CallDraft) : List String :=
  match d.overridable with
  | none => [sanitize d.base]
  | some (className, method) =>
    [sanitize d.base, sanitize ("set_" ++ className ++ "_fn" ++ method)]

theorem idealNames_call (d : CallDraft) :
    (Draft.call d).requests.flatMap Request.idealClaims = d.idealNames ∧
      (Draft.call d).symbols ((Draft.call d).requests.map Request.idealName) = d.idealNames := by
  rw [CallDraft.idealNames, Draft.requests]
  cases d.overridable <;> exact ⟨rfl, rfl⟩

theorem idealNames_field (d : FieldDraft) :
    (Draft.field d).requests.flatMap Request.idealClaims =
        [sanitize d.base, "get_" ++ sanitize d.base, "set_" ++ sanitize d.base] ∧
      (Draft.field d).symbols ((Draft.field d).requests.map Request.idealName) =
        ["get_" ++ sanitize d.base, "set_" ++ sanitize d.base] :=
  ⟨rfl, rfl⟩

end Drafts

namespace Job

def idealNames (d : Job) : List String := d.requests.flatMap Request.idealClaims

/-- The export when no symbol has a number. -/
def idealEntry (d : Job) : Export :=
  { entity := d.entity, kind := d.kind
    symbols := d.draft.symbols (d.requests.map Request.idealName) }

/-- Where all ideal names differ every job has its ideal entry. -/
theorem exports_of_nodup {ds : List Job} :
    ∀ {r : Registry}, (r.names ++ ds.flatMap idealNames).Nodup →
      exports r ds = ds.map idealEntry := by
  induction ds with
  | nil => exact fun _ => rfl
  | cons d ds ih =>
    intro r h
    rw [List.flatMap_cons, ← List.append_assoc] at h
    have hfirst : (r.names ++ d.requests.flatMap Request.idealClaims).Nodup := h.of_append_left
    obtain ⟨hanswers, hafter⟩ := Registry.answers_of_nodup hfirst
    have hnames : (r.after d.requests).names = r.names ++ d.idealNames := hafter
    rw [← hnames] at h
    rw [exports, entry, hanswers, ih h]
    rfl

end Job

/-! ## Nodes -/

namespace Setting

/-- The names that go with a node if none of them is taken: those of its symbols, and for a field
also the name that both its accessors end in. -/
def idealNames (s : Setting) (n : Node) : List String :=
  match n.decl, s.parentClass? n with
  | .freeFunction _, _ => [sanitize (s.qualifiedName n)]
  | .memberFunction m, some c =>
    if m.isVirtual then
      [sanitize (s.qualifiedName n),
        sanitize ("set_" ++ s.options.className c ++ "_fn" ++ n.name)]
    else [sanitize (s.qualifiedName n)]
  | .memberVariable _, some c =>
    let base := sanitize (s.qualifiedName c ++ "_" ++ n.name)
    [base, "get_" ++ base, "set_" ++ base]
  | _, _ => []

/-- The symbols of a node if none of its names is taken. -/
def idealSymbols (s : Setting) (n : Node) : List String :=
  match n.decl with
  | .memberVariable _ => (s.idealNames n).tail
  | .freeFunction _ | .memberFunction _ | .nameSpace | .classType _ | .other => s.idealNames n

/-- The node is exported with symbols that have no numbers. -/
structure ExportedIdeally (s : Setting) (n : Node) (e : Export) : Prop where
  entity : e.entity = s.qualifiedName n
  kind : ExportKind.ofDeclaration? n.decl = some e.kind
  symbols : e.symbols = s.idealSymbols n

end Setting

section Nodes

variable {s : Setting} {n : Node}

/-- The names that are asked for in a draft are those of its node. -/
theorem idealNames_of_draft {d : Draft} (h : s.draft n = .ok (some d)) :
    d.requests.flatMap Request.idealClaims = s.idealNames n ∧
      d.symbols (d.requests.map Request.idealName) = s.idealSymbols n := by
  rcases Setting.draft_ok_some h with ⟨f, hdecl, hd⟩ | ⟨m, hdecl, hrole, hd⟩ | ⟨type, hdecl, hd⟩
  · obtain ⟨returnType, params, -, -, rfl⟩ := Setting.draftFunction_ok hd
    have hnames : s.idealNames n = [sanitize (s.qualifiedName n)] := by
      simp only [Setting.idealNames, hdecl]
    simp only [Setting.idealSymbols, hdecl, hnames]
    exact idealNames_call _
  · obtain ⟨c, returnType, params, hc, -, -, hd⟩ := Setting.draftMethod_ok hrole hd
    cases hd
    simp only [Setting.idealSymbols, Setting.idealNames, hdecl, hc]
    cases hvirtual : m.isVirtual with
    | true => exact idealNames_call _
    | false => exact idealNames_call _
  · obtain ⟨c, cType, hc, -, f, rfl, hbase, -⟩ := Setting.draftField_ok hd
    simp only [Setting.idealSymbols, Setting.idealNames, hdecl, hc, ← hbase]
    exact idealNames_field f

theorem idealNames_of_job {d : Job} (h : s.job n = .ok (some d)) :
    d.idealNames = s.idealNames n := by
  obtain ⟨-, -, hdraft, -⟩ := Setting.job_eq_ok_some.mp h
  exact (idealNames_of_draft hdraft).1

theorem exportedIdeally_of_job {d : Job} (h : s.job n = .ok (some d)) :
    s.ExportedIdeally n d.idealEntry := by
  obtain ⟨-, hkind, hdraft, hentity⟩ := Setting.job_eq_ok_some.mp h
  exact { entity := hentity, kind := hkind, symbols := (idealNames_of_draft hdraft).2 }

/-- The jobs of nodes are those of the exported ones among them. -/
theorem forall₂_job_exported {ns : List Node} :
    ∀ {jobs : List (Option Job)}, ns.mapM s.job = .ok jobs →
      List.Forall₂ (fun n d => s.job n = .ok (some d)) (ns.filter (·.isExported))
        jobs.reduceOption := by
  induction ns with
  | nil =>
    intro jobs h
    cases h
    exact .nil
  | cons n ns ih =>
    intro jobs h
    obtain ⟨job, rest, hjob, hrest, rfl⟩ := mapM_job_cons.mp h
    cases job with
    | none =>
      have hn : ¬ n.isExported = true := by
        rw [Setting.job_eq_ok_none.mp hjob]
        exact Bool.false_ne_true
      rw [List.filter_cons_of_neg hn, List.reduceOption_cons_of_none]
      exact ih hrest
    | some d =>
      rw [List.filter_cons_of_pos (Setting.job_eq_ok_some.mp hjob).1,
        List.reduceOption_cons_of_some]
      exact .cons hjob (ih hrest)

/-- The names that go with nodes are those that their jobs ask for. -/
theorem flatMap_idealNames {ns : List Node} {ds : List Job}
    (h : List.Forall₂ (fun n d => s.job n = .ok (some d)) ns ds) :
    ns.flatMap s.idealNames = ds.flatMap Job.idealNames := by
  induction h with
  | nil => rfl
  | cons hjob _ ih => rw [List.flatMap_cons, List.flatMap_cons, ih, idealNames_of_job hjob]

end Nodes

end FlatApi
