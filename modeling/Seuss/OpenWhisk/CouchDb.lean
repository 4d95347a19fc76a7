import Seuss.Data.Machine
import Seuss.Data.UnorderedMap
import Seuss.OpenWhisk.Content

/-!
This module contains `openwhisk::couchdb::get_action`, which keeps the code of the actions it has looked
up, compared with a lookup that keeps nothing.
-/

namespace Seuss
namespace CouchDb

-- the stored documents, by their addresses
abbrev Documents := CString → Option CString

-- `address` is `couchdb_address/couchdb_db_entity/`, `missing` the reply where there is no document.
structure Service where
  yajl : Msg.Yajl
  address : CString
  missing : CString → CString

variable (service : Service)

def key (action : Msg.Action) : CString :=
  action.path ++ action.name ++ action.version

def getAddr (action : Msg.Action) : CString :=
  CString.cstr (service.address ++ action.path ++ "%2F".toList ++ action.name)

def unparsedGet (docs : Documents) (addr : CString) : CString :=
  match docs addr with
  | some document => document
  | none => service.missing addr

def parsedGet (docs : Documents) (addr : CString) : Option Json.Tree :=
  service.yajl.treeParse (CString.cstr (unparsedGet service docs addr))

def functionCode (node : Json.Tree) : CString :=
  match service.yajl.treeGet node ["exec".toList, "code".toList] .string with
  | some (.str code) => CString.cstr code
  | _ => []

def getAction (docs : Documents) (dbCache : UnorderedMap CString CString) (action : Msg.Action) :
    CString × UnorderedMap CString CString :=
  match dbCache.find? (key action) with
  | some code => (code, dbCache)
  | none =>
    match parsedGet service docs (getAddr service action) with
    -- a parse error
    | none => ([], dbCache)
    | some node =>
      let code := functionCode service node
      (code, (dbCache.emplace (key action) code).1)

-- `get_action` without the cache
def lookup (docs : Documents) (action : Msg.Action) : CString :=
  match parsedGet service docs (getAddr service action) with
  | none => []
  | some node => functionCode service node

structure Call where
  action : Msg.Action
  docs : Documents
  code : CString

/--
The data base, the cache, and the calls so far: each with the documents at that time and its answer.
-/
structure State where
  docs : Documents
  dbCache : UnorderedMap CString CString
  calls : List Call

inductive Event where
  | store (addr document : CString)
  | getAction (action : Msg.Action)

-- A document is never changed once it is stored.
def machine : Machine State Event where
  init := { docs := fun _ => none, dbCache := ∅, calls := [] }
  step s e :=
    match e with
    | .store addr document =>
      if s.docs addr = none then
        some { s with docs := fun a => if a = addr then some document else s.docs a }
      else
        none
    | .getAction action =>
      let (code, dbCache) := getAction service s.docs s.dbCache action
      some { s with dbCache, calls := s.calls ++ [{ action, docs := s.docs, code }] }

def Call.transparent (c : Call) : Prop :=
  c.code = lookup service c.docs c.action

/--
A call with a key that an earlier call got a parsable reply for is for the same document, and this
document was there then already or is not there yet.
-/
def State.Unmasked (s : State) (e : Event) : Prop :=
  ∀ action, e = .getAction action → ∀ c ∈ s.calls, key c.action = key action →
    (parsedGet service c.docs (getAddr service c.action)).isSome →
    getAddr service c.action = getAddr service action
      ∧ ((c.docs (getAddr service action)).isSome ∨ s.docs (getAddr service action) = none)

/--
Every entry of the cache is the answer to an earlier call, and the documents have only become more since
the calls.
-/
structure Inv (s : State) : Prop where
  entry : ∀ k code, s.dbCache.find? k = some code →
    ∃ c ∈ s.calls, key c.action = k
      ∧ (parsedGet service c.docs (getAddr service c.action)).isSome
      ∧ code = lookup service c.docs c.action
  grown : ∀ c ∈ s.calls, ∀ addr document, c.docs addr = some document →
    s.docs addr = some document
  transparent : ∀ c ∈ s.calls, c.transparent service

section step

variable {service} {s t : State} {docs : Documents} {dbCache : UnorderedMap CString CString}
  {action : Msg.Action}

/--
What `get_action` can do: answer from the cache, leave the cache as it is where the reply is not
parsable, or enter the answer.
-/
theorem getAction_cases (service : Service) (docs : Documents)
    (dbCache : UnorderedMap CString CString) (action : Msg.Action) :
    (∃ code, dbCache.find? (key action) = some code
        ∧ getAction service docs dbCache action = (code, dbCache))
      ∨ getAction service docs dbCache action = (lookup service docs action, dbCache)
      ∨ ((parsedGet service docs (getAddr service action)).isSome
        ∧ getAction service docs dbCache action
          = (lookup service docs action,
              AList.insert (key action) (lookup service docs action) dbCache)) := by
  unfold getAction lookup
  cases hfind : dbCache.find? (key action) with
  | some code => exact .inl ⟨code, rfl, rfl⟩
  | none =>
    cases hparse : parsedGet service docs (getAddr service action) with
    | none => exact .inr (.inl rfl)
    | some node =>
      refine .inr (.inr ⟨rfl, ?_⟩)
      dsimp only
      rw [UnorderedMap.emplace_of_find?_none _ hfind]

theorem getAction_of_hit {code : CString} (hfind : dbCache.find? (key action) = some code) :
    getAction service docs dbCache action = (code, dbCache) := by
  simp only [getAction, hfind]

theorem getAction_of_miss {node : Json.Tree} (hfind : dbCache.find? (key action) = none)
    (hparse : parsedGet service docs (getAddr service action) = some node) :
    getAction service docs dbCache action
      =
    (functionCode service node, AList.insert (key action) (functionCode service node) dbCache) := by
  simp only [getAction, hfind, hparse, UnorderedMap.emplace_of_find?_none _ hfind]

theorem lookup_of_parse {node : Json.Tree}
    (hparse : parsedGet service docs (getAddr service action) = some node) :
    lookup service docs action = functionCode service node := by
  simp only [lookup, hparse]

theorem lookup_congr {action action' : Msg.Action} {docs docs' : Documents}
    (haddr : getAddr service action = getAddr service action')
    (hdocs : docs (getAddr service action') = docs' (getAddr service action')) :
    lookup service docs action = lookup service docs' action' := by
  unfold lookup parsedGet unparsedGet
  rw [haddr, hdocs]

theorem Inv.cached (h : Inv service s) (hunmasked : s.Unmasked service (.getAction action))
    {code : CString} (hfind : s.dbCache.find? (key action) = some code) :
    code = lookup service s.docs action := by
  rcases h.entry _ _ hfind with ⟨c, hc, hkey, hparsed, rfl⟩
  rcases hunmasked action rfl c hc hkey hparsed with ⟨haddr, hdocs⟩
  apply lookup_congr haddr
  rcases hdocs with hsome | hnone
  . rcases Option.isSome_iff_exists.mp hsome with ⟨document, hdocument⟩
    rw [hdocument, h.grown c hc _ _ hdocument]
  . cases hthen : c.docs (getAddr service action) with
    | none => rw [hnone]
    | some document =>
      have hnow := h.grown c hc _ _ hthen
      rw [hnone] at hnow
      cases hnow

theorem Inv.called (h : Inv service s) {code : CString} {dbCache : UnorderedMap CString CString}
    (hcode : code = lookup service s.docs action)
    (hentry : ∀ k code, dbCache.find? k = some code → s.dbCache.find? k = some code
      ∨ (k = key action ∧ (parsedGet service s.docs (getAddr service action)).isSome
        ∧ code = lookup service s.docs action)) :
    Inv service { s with dbCache, calls := s.calls ++ [{ action, docs := s.docs, code }] } := by
  constructor
  . intro k code' hfind
    rcases hentry k code' hfind with hold | ⟨rfl, hparsed, rfl⟩
    . rcases h.entry k code' hold with ⟨c, hc, hrest⟩
      exact ⟨c, List.mem_append_left _ hc, hrest⟩
    . exact ⟨_, List.mem_append_right _ List.mem_cons_self, rfl, hparsed, rfl⟩
  . intro c hc addr document hdocument
    rw [List.mem_append, List.mem_singleton] at hc
    rcases hc with hc | rfl
    . exact h.grown c hc addr document hdocument
    . exact hdocument
  . intro c hc
    rw [List.mem_append, List.mem_singleton] at hc
    rcases hc with hc | rfl
    . exact h.transparent c hc
    . exact hcode

theorem Inv.step (h : Inv service s) {e : Event} (hunmasked : s.Unmasked service e)
    (he : (machine service).step s e = some t) :
    Inv service t := by
  cases e with
  | store addr document =>
    simp only [machine, Option.ite_none_right_eq_some, Option.some.injEq] at he
    rcases he with ⟨hnone, rfl⟩
    refine ⟨h.entry, ?_, h.transparent⟩
    intro c hc a d hd
    dsimp only
    have hold := h.grown c hc a d hd
    have hne : a ≠ addr := by
      rintro rfl
      rw [hnone] at hold
      cases hold
    rw [if_neg hne]
    exact hold
  | getAction action =>
    simp only [machine, Option.some.injEq] at he
    rcases getAction_cases service s.docs s.dbCache action with
      ⟨code, hfind, heq⟩ | heq | ⟨hparsed, heq⟩
    . rw [heq] at he
      rw [← he]
      exact h.called (h.cached hunmasked hfind) fun k code hk => .inl hk
    . rw [heq] at he
      rw [← he]
      exact h.called rfl fun k code hk => .inl hk
    . rw [heq] at he
      rw [← he]
      apply h.called rfl
      intro k code hk
      dsimp only at hk
      rw [UnorderedMap.find?_insert] at hk
      split at hk
      . next hkey =>
        cases hk
        exact .inr ⟨hkey, hparsed, rfl⟩
      . exact .inl hk

end step

/--
The cache cannot be told from a plain lookup in a run in which no call finds the entry of another
document, or of one that was missing when the entry was made and has been stored since.
-/
theorem transparent_of_unmasked {evs : List Event} {s : State}
    (h : (machine service).run evs = some s)
    (hunmasked : ∀ before e t, before ++ [e] <+: evs → (machine service).run before = some t →
      t.Unmasked service e) :
    ∀ c ∈ s.calls, c.code = lookup service c.docs c.action := by
  have hinv : Inv service s := by
    revert hunmasked
    refine (machine service).run_induction (P := fun evs s =>
      (∀ before e t, before ++ [e] <+: evs → (machine service).run before = some t →
        t.Unmasked service e) → Inv service s) ?_ ?_ h
    . intro _
      constructor
      . intro k code hfind
        cases hfind
      . intro c hc
        cases hc
      . intro c hc
        cases hc
    . intro evs s e t hs ih he hsteps
      have hearlier := ih fun before f u hbefore hu =>
        hsteps before f u (hbefore.trans (List.prefix_append _ _)) hu
      exact hearlier.step (hsteps evs e s (List.prefix_refl _) hs) he
  exact hinv.transparent

section example_

def exampleService : Service where
  yajl := Msg.pathYajl
  address := "/db/".toList
  missing := fun _ => ['{', '}']

-- `{"exec":{"code":"..."}}`
def document (code : CString) : CString :=
  '{' :: '"' :: ("exec".toList ++ '"' :: ':' :: '{' :: '"' :: ("code".toList
    ++ '"' :: ':' :: '"' :: (code ++ ['"', '}', '}'])))

def documentNode (code : CString) : Json.Tree :=
  .obj [("exec".toList, .obj [("code".toList, .str code)])]

theorem parse_document {code : CString} (h : ∀ c ∈ code, Json.isPlain c = true) :
    Json.parse (document code) = some (documentNode code) := by
  rw [document, Json.parse_eq_some_iff]
  refine ⟨[], ?_, rfl⟩
  refine .obj rfl (Json.key_of_plain (k := "exec".toList) (List.all_eq_true.mp rfl) _) ?_
    (.closeObj (s := ['}']) rfl)
  refine .obj rfl (Json.key_of_plain (k := "code".toList) (List.all_eq_true.mp rfl) _) ?_
    (.closeObj (s := ['}', '}']) rfl)
  exact .str rfl (Json.string_of_plain h _)

theorem treeParse_exampleService : exampleService.yajl.treeParse = Json.parse := by
  rfl

theorem parsedGet_of_parse {docs : Documents} {addr text : CString} {node : Json.Tree}
    (htext : unparsedGet exampleService docs addr = text) (hparse : Json.parse text = some node) :
    parsedGet exampleService docs addr = some node := by
  rw [parsedGet, htext, Msg.cstr_of_parse hparse, treeParse_exampleService, hparse]

theorem parsedGet_document {docs : Documents} {addr code : CString}
    (hcode : ∀ c ∈ code, Json.isPlain c = true) (h : docs addr = some (document code)) :
    parsedGet exampleService docs addr = some (documentNode code) := by
  apply parsedGet_of_parse _ (parse_document hcode)
  rw [unparsedGet, h]

theorem parsedGet_missing {docs : Documents} {addr : CString} (h : docs addr = none) :
    parsedGet exampleService docs addr = some (.obj []) := by
  have hempty : Json.parse ['{', '}'] = some (.obj []) := rfl
  apply parsedGet_of_parse _ hempty
  rw [unparsedGet, h]
  rfl

-- `hello1` in version 0.0.1 and `hello` in version 10.0.1
def hello1 : Msg.Action where
  path := "guest".toList
  name := "hello1".toList
  version := "0.0.1".toList

def hello : Msg.Action where
  path := "guest".toList
  name := "hello".toList
  version := "10.0.1".toList

def helloAddr : CString :=
  "/db/guest%2Fhello".toList

def hello1Addr : CString :=
  "/db/guest%2Fhello1".toList

def twoDocuments : Documents :=
  fun a => if a = helloAddr then some (document ['2']) else
    if a = hello1Addr then some (document ['1']) else none

theorem run_getAction {service : Service} {evs : List Event} {s : State}
    (h : (machine service).run evs = some s) (action : Msg.Action) :
    (machine service).run (evs ++ [.getAction action])
      =
    some {
      s with
      dbCache := (getAction service s.docs s.dbCache action).2
      calls := s.calls ++
        [{ action, docs := s.docs, code := (getAction service s.docs s.dbCache action).1 }]
    } := by
  rw [Machine.run_concat]
  exact ⟨s, h, rfl⟩

theorem run_store {service : Service} {evs : List Event} {s : State}
    (h : (machine service).run evs = some s) (addr document : CString)
    (hnone : s.docs addr = none) :
    (machine service).run (evs ++ [.store addr document])
      =
    some { s with docs := fun a => if a = addr then some document else s.docs a } := by
  rw [Machine.run_concat]
  refine ⟨s, h, ?_⟩
  simp only [machine, if_pos hnone]

theorem functionCode_document (c : Char) (h : c ≠ '\x00') :
    functionCode exampleService (documentNode [c]) = [c] := by
  have hget : functionCode exampleService (documentNode [c]) = CString.cstr [c] := rfl
  rw [hget, CString.cstr, List.takeWhile_cons_of_pos (by simpa using h), List.takeWhile_nil]

def calledTwice : List Event :=
  [.store helloAddr (document ['2']), .getAction hello, .getAction hello]

def oneDocument : Documents :=
  fun a => if a = helloAddr then some (document ['2']) else none

theorem run_oneDocument :
    (machine exampleService).run [.store helloAddr (document ['2'])] = some ⟨oneDocument, ∅, []⟩ := by
  have hinit : (machine exampleService).run [] = some ⟨fun _ => none, ∅, []⟩ := rfl
  exact run_store hinit helloAddr (document ['2']) rfl

theorem parsedGet_oneDocument :
    parsedGet exampleService oneDocument (getAddr exampleService hello)
      = some (documentNode ['2']) := by
  exact parsedGet_document (List.all_eq_true.mp rfl) rfl

theorem run_calledOnce :
    (machine exampleService).run [.store helloAddr (document ['2']), .getAction hello]
      =
    some ⟨oneDocument, AList.insert (key hello) ['2'] ∅, [⟨hello, oneDocument, ['2']⟩]⟩ := by
  have hmiss : getAction exampleService oneDocument ∅ hello
      = (['2'], AList.insert (key hello) ['2'] ∅) := by
    rw [getAction_of_miss rfl parsedGet_oneDocument, functionCode_document _ (by decide)]
  have hsecond := run_getAction run_oneDocument hello
  simp only [hmiss] at hsecond
  exact hsecond

theorem run_calledTwice :
    (machine exampleService).run calledTwice
      =
    some ⟨oneDocument, AList.insert (key hello) ['2'] ∅,
      [⟨hello, oneDocument, ['2']⟩, ⟨hello, oneDocument, ['2']⟩]⟩ := by
  have hhit : getAction exampleService oneDocument (AList.insert (key hello) ['2'] ∅) hello
      = (['2'], AList.insert (key hello) ['2'] ∅) := by
    apply getAction_of_hit
    rw [UnorderedMap.find?_insert_self]
  have hthird := run_getAction run_calledOnce hello
  simp only [hhit] at hthird
  exact hthird

theorem unmasked_calledTwice {before : List Event} {e : Event} {t : State}
    (hbefore : before ++ [e] <+: calledTwice)
    (ht : (machine exampleService).run before = some t) :
    t.Unmasked exampleService e := by
  have hcalledTwice : calledTwice
      = [.store helloAddr (document ['2']), .getAction hello] ++ [.getAction hello] := rfl
  have hcalledOnce : [.store helloAddr (document ['2']), .getAction hello]
      = [.store helloAddr (document ['2'])] ++ [Event.getAction hello] := rfl
  intro action he c hc
  subst he
  rw [hcalledTwice, List.prefix_concat_iff, List.append_singleton_inj] at hbefore
  rcases hbefore with ⟨rfl, haction⟩ | hbefore
  . cases haction
    cases run_calledOnce.symm.trans ht
    rw [List.mem_singleton] at hc
    subst hc
    exact fun _ _ => ⟨rfl, .inl rfl⟩
  . rw [hcalledOnce, List.prefix_concat_iff, List.append_singleton_inj] at hbefore
    rcases hbefore with ⟨rfl, _⟩ | hbefore
    . cases run_oneDocument.symm.trans ht
      cases hc
    . rcases before with _ | ⟨f, before⟩
      . cases ht
        cases hc
      . rw [List.cons_append, List.cons_prefix_cons] at hbefore
        simp at hbefore

theorem transparent_of_unmasked_calledTwice :
    ∃ s, (machine exampleService).run calledTwice = some s
      ∧ ∀ c ∈ s.calls, c.code = lookup exampleService c.docs c.action := by
  exact ⟨_, run_calledTwice, transparent_of_unmasked exampleService run_calledTwice
    fun _ _ _ hbefore ht => unmasked_calledTwice hbefore ht⟩

def colliding : List Event :=
  [
    .store hello1Addr (document ['1']),
    .store helloAddr (document ['2']),
    .getAction hello1,
    .getAction hello
  ]

theorem colliding_run :
    ∃ s, (machine exampleService).run colliding = some s
      ∧ s.calls = [⟨hello1, twoDocuments, ['1']⟩, ⟨hello, twoDocuments, ['1']⟩] := by
  have hinit : (machine exampleService).run [] = some ⟨fun _ => none, ∅, []⟩ := rfl
  have hfirst := run_store hinit hello1Addr (document ['1']) rfl
  have hsecond : (machine exampleService).run
        [.store hello1Addr (document ['1']), .store helloAddr (document ['2'])]
      = some ⟨twoDocuments, ∅, []⟩ :=
    run_store hfirst helloAddr (document ['2']) (by decide)
  have hparse : parsedGet exampleService twoDocuments (getAddr exampleService hello1)
      = some (documentNode ['1']) := parsedGet_document (List.all_eq_true.mp rfl) rfl
  have hmiss : getAction exampleService twoDocuments ∅ hello1
      = (['1'], AList.insert (key hello1) ['1'] ∅) := by
    rw [getAction_of_miss rfl hparse, functionCode_document _ (by decide)]
  have hkey : key hello = key hello1 := by
    decide
  have hhit : getAction exampleService twoDocuments (AList.insert (key hello1) ['1'] ∅) hello
      = (['1'], AList.insert (key hello1) ['1'] ∅) := by
    apply getAction_of_hit
    rw [hkey, UnorderedMap.find?_insert_self]
  have hthird := run_getAction hsecond hello1
  simp only [hmiss] at hthird
  have hfourth := run_getAction hthird hello
  simp only [hhit] at hfourth
  exact ⟨_, hfourth, rfl⟩

def masking : List Event :=
  [.getAction hello, .store helloAddr (document ['2']), .getAction hello]

theorem masking_run :
    ∃ s, (machine exampleService).run masking = some s
      ∧ ∃ docs, docs helloAddr = some (document ['2'])
        ∧ s.calls = [⟨hello, fun _ => none, []⟩, ⟨hello, docs, []⟩] := by
  have hinit : (machine exampleService).run [] = some ⟨fun _ => none, ∅, []⟩ := rfl
  have hparse : parsedGet exampleService (fun _ => none) (getAddr exampleService hello)
      = some (.obj []) := parsedGet_missing rfl
  have hmiss : getAction exampleService (fun _ => none) ∅ hello
      = ([], AList.insert (key hello) [] ∅) := getAction_of_miss rfl hparse
  have hfirst := run_getAction hinit hello
  simp only [hmiss] at hfirst
  have hsecond := run_store hfirst helloAddr (document ['2']) rfl
  have hthird := run_getAction hsecond hello
  have hhit : ∀ docs, getAction exampleService docs (AList.insert (key hello) [] ∅) hello
      = ([], AList.insert (key hello) [] ∅) := by
    intro docs
    apply getAction_of_hit
    rw [UnorderedMap.find?_insert_self]
  simp only [hhit] at hthird
  exact ⟨_, hthird, _, if_pos rfl, rfl⟩

theorem lookup_hello {docs : Documents} (h : docs helloAddr = some (document ['2'])) :
    lookup exampleService docs hello = ['2'] := by
  have hparse : parsedGet exampleService docs (getAddr exampleService hello)
      = some (documentNode ['2']) := parsedGet_document (List.all_eq_true.mp rfl) h
  rw [lookup_of_parse hparse, functionCode_document _ (by decide)]

/--
The answer is the code of another action, and an action that was asked for too early stays without code.
-/
theorem getAction_not_transparent :
    (∃ s c, (machine exampleService).run colliding = some s ∧ c ∈ s.calls ∧ c.action = hello
        ∧ c.code = ['1'] ∧ lookup exampleService c.docs c.action = ['2'])
      ∧ ∃ s c, (machine exampleService).run masking = some s ∧ c ∈ s.calls ∧ c.action = hello
        ∧ c.code = [] ∧ lookup exampleService c.docs c.action = ['2'] := by
  rcases colliding_run with ⟨s, hs, hcalls⟩
  rcases masking_run with ⟨t, ht, docs, hdocs, hmasked⟩
  constructor
  . refine ⟨s, ⟨hello, twoDocuments, ['1']⟩, hs, ?_, rfl, rfl, lookup_hello rfl⟩
    rw [hcalls]
    exact List.mem_cons_of_mem _ List.mem_cons_self
  . refine ⟨t, ⟨hello, docs, []⟩, ht, ?_, rfl, rfl, lookup_hello hdocs⟩
    rw [hmasked]
    exact List.mem_cons_of_mem _ List.mem_cons_self

end example_

end CouchDb
end Seuss
