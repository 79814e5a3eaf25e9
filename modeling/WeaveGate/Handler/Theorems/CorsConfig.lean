import WeaveGate.Handler.CorsConfig
import WeaveGate.Handler.Theorems.Cors
import WeaveGate.Static.Lemmas.Preference

/-!
# From the CORS options to the answers

Which origins, methods and header fields the texts of the options let through, and what they make the answers say.
-/

namespace WeaveGate.Handler

open Http Settings
open Static (Body)

variable {parseUri : Str → Option Uri} {order : List Str → List Str}

/-! ## Sets -/

theorem mem_extend {α : Type} [DecidableEq α] {set xs : List α} {x : α} : x ∈ extend set xs ↔ x ∈ set ∨ x ∈ xs := by
  unfold extend
  induction xs generalizing set with
  | nil => simp
  | cons y xs ih =>
      rw [List.foldl_cons, ih, List.mem_insert_iff, List.mem_cons]
      tauto

theorem mem_extend_mapM {α β : Type} [DecidableEq β] {f : α → Except Error β} {xs : List α} {ys : List β}
    (h : xs.mapM f = .ok ys) (y : β) : y ∈ extend [] ys ↔ ∃ x ∈ xs, f x = .ok y := by
  rw [mem_extend]
  constructor
  · rintro (hy | hy)
    · cases hy
    · exact Checked.mapM_mem h hy
  · rintro ⟨x, hx, hf⟩
    obtain ⟨y', hy', hf'⟩ := Checked.exists_of_mapM_mem h hx
    cases hf.symm.trans hf'
    exact .inr hy'

/-! ## The texts of the options -/

theorem splitScheme_eq {s : Str} {parts : Str × Str} (h : splitScheme s = some parts) :
    s = parts.1 ++ "://".toList ++ parts.2 := by
  induction s generalizing parts with
  | nil => cases h
  | cons c s ih =>
      unfold splitScheme at h
      split at h
      · rename_i rest hrest
        cases h
        exact Text.stripPrefix_eq_some.mp hrest
      · obtain ⟨parts', hparts, rfl⟩ := Option.map_eq_some_iff.mp h
        rw [ih hparts]
        rfl

theorem splitScheme_isSome {s : Str} (h : "://".toList <:+: s) : ∃ parts, splitScheme s = some parts := by
  induction s with
  | nil => exact absurd (List.infix_nil.mp h) (by decide)
  | cons c s ih =>
      unfold splitScheme
      split
      · exact ⟨_, rfl⟩
      · rename_i hnone
        rcases List.infix_cons_iff.mp h with ⟨rest, hrest⟩ | h
        · rw [← hrest, Text.stripPrefix_append] at hnone
          cases hnone
        · obtain ⟨parts, hparts⟩ := ih h
          exact ⟨_, by rw [hparts]; rfl⟩

/-- A URI of a scheme and an authority, and at most the root as its path, stands for the origin of these two. -/
structure NamesOrigin (parseUri : Str → Option Uri) (host : Str) (value : HeaderValue) : Prop where
  separated : "://".toList <:+: host
  legal : (HeaderValue.fromStr host).isSome = true
  uri : ∃ uri scheme authority, parseUri host = some uri ∧ uri.scheme = some scheme ∧ uri.authority = some authority ∧
    uri.pathAndQuery.all (fun pq => pq.asStr = ['/']) = true ∧
    HeaderValue.fromStr (scheme ++ "://".toList ++ authority) = some value

theorem elim_eq_ok {α : Type} {o : Option α} {e : Error} {a : α} :
    o.elim (Except.error e) Except.ok = .ok a ↔ o = some a := by
  cases o <;> simp

theorem originValue_eq_ok {host : Str} {value : HeaderValue} :
    originValue parseUri host = .ok value ↔ NamesOrigin parseUri host value := by
  constructor
  · intro h
    obtain ⟨origin, horigin, hvalue⟩ := Checked.bind_eq_ok.mp h
    rw [elim_eq_ok] at hvalue
    unfold intoOrigin at horigin
    split at horigin
    · cases horigin
    · rename_i scheme rest hsplit
      rw [elim_eq_ok] at horigin
      have htext := splitScheme_eq hsplit
      unfold tryFromParts at horigin
      simp only [Option.bind_eq_bind, ← htext] at horigin
      obtain ⟨legal, hlegal, horigin⟩ := Option.bind_eq_some_iff.mp horigin
      obtain ⟨uri, huri, horigin⟩ := Option.bind_eq_some_iff.mp horigin
      obtain ⟨scheme', hscheme, horigin⟩ := Option.bind_eq_some_iff.mp horigin
      obtain ⟨authority, hauthority, horigin⟩ := Option.bind_eq_some_iff.mp horigin
      split at horigin
      · rename_i hpath
        cases horigin
        exact ⟨⟨scheme, rest, htext.symm⟩, by rw [hlegal]; rfl, uri, scheme', authority, huri, hscheme, hauthority, hpath,
          hvalue⟩
      · cases horigin
  · rintro ⟨hseparated, hlegal, uri, scheme', authority, huri, hscheme, hauthority, hpath, hvalue⟩
    obtain ⟨⟨scheme, rest⟩, hsplit⟩ := splitScheme_isSome hseparated
    have htext := splitScheme_eq hsplit
    obtain ⟨legal, hlegal⟩ := Option.isSome_iff_exists.mp hlegal
    have horigin : intoOrigin parseUri host = .ok (scheme' ++ "://".toList ++ authority) := by
      unfold intoOrigin
      rw [hsplit]
      refine elim_eq_ok.mpr ?_
      unfold tryFromParts
      simp only [Option.bind_eq_bind, ← htext, hlegal, huri, hscheme, hauthority, Option.bind_some]
      exact if_pos hpath
    exact Checked.bind_eq_ok.mpr ⟨_, horigin, elim_eq_ok.mpr hvalue⟩

/-- What a configuration makes of three trimmed texts. -/
structure Configures (parseUri : Str → Option Uri) (order : List Str → List Str) (origins allowHeaders exposeHeaders : Str)
    (configured : Configured) : Prop where
  any : configured.cors.origins = none ↔ origins = ['*']
  listed : ∀ set, configured.cors.origins = some set → ∀ value, value ∈ set ↔
    ∃ element ∈ origins.splitOn ',', NamesOrigin parseUri (Text.trim element) value
  allowed : ∀ name, name ∈ configured.cors.allowedHeaders ↔
    ∃ text ∈ corsHeaderList allowHeaders, HeaderName.fromStr text = some name
  exposed : ∀ name, name ∈ configured.cors.exposedHeaders ↔
    ∃ text ∈ corsHeaderList exposeHeaders, HeaderName.fromStr text = some name
  methods : ∀ method, method ∈ configured.cors.allowedMethods ↔ method ∈ [Method.get, .head, .options]
  maxAge : configured.cors.maxAge = none
  built : configured = configured.cors.build order

theorem mem_headerNames {texts : List Str} {names : List HeaderName} (h : texts.mapM headerName = .ok names)
    (name : HeaderName) : name ∈ extend [] names ↔ ∃ text ∈ texts, HeaderName.fromStr text = some name := by
  rw [mem_extend_mapM h]
  simp only [headerName, elim_eq_ok]

/-- The texts that a server starts with. -/
structure AcceptsTexts (parseUri : Str → Option Uri) (origins allowHeaders exposeHeaders : Str) : Prop where
  origins : origins ≠ ['*'] → ∀ element ∈ origins.splitOn ',', ∃ value, NamesOrigin parseUri (Text.trim element) value
  names : ∀ text ∈ corsHeaderList allowHeaders ++ corsHeaderList exposeHeaders, (HeaderName.fromStr text).isSome = true

theorem corsOrigins_eq_ok {origins : Str} {cors : Cors} (h : corsOrigins parseUri origins = .ok cors) :
    cors = { Cors.new with origins := cors.origins } ∧ (cors.origins = none ↔ origins = ['*']) ∧
      (∀ set, cors.origins = some set → ∀ value, value ∈ set ↔
        ∃ element ∈ origins.splitOn ',', NamesOrigin parseUri (Text.trim element) value) ∧
      (origins ≠ ['*'] → ∀ element ∈ origins.splitOn ',', ∃ value, NamesOrigin parseUri (Text.trim element) value) := by
  unfold corsOrigins at h
  split at h
  · rename_i hany
    cases h
    exact ⟨rfl, iff_of_true rfl hany, fun _ hset => (by cases hset), fun hne => absurd hany hne⟩
  · rename_i hany
    obtain ⟨values, hvalues, h⟩ := Checked.bind_eq_ok.mp h
    cases h
    refine ⟨rfl, iff_of_false (by simp) hany, fun set hset value => ?_, fun _ element helement => ?_⟩
    · cases hset
      rw [Cors.new, Option.getD_none, mem_extend_mapM hvalues]
      simp only [List.mem_map, exists_exists_and_eq_and, originValue_eq_ok]
    · obtain ⟨value, _, hvalue⟩ := Checked.exists_of_mapM_mem hvalues (List.mem_map_of_mem helement)
      exact ⟨value, originValue_eq_ok.mp hvalue⟩

theorem headerNames_isSome {texts : List Str} {names : List HeaderName} (h : texts.mapM headerName = .ok names) :
    ∀ text ∈ texts, (HeaderName.fromStr text).isSome = true := fun text htext => by
  obtain ⟨name, _, hname⟩ := Checked.exists_of_mapM_mem h htext
  rw [elim_eq_ok.mp hname]
  rfl

theorem corsNew_eq_ok {origins allowHeaders exposeHeaders : Str} (hne : origins ≠ []) {result : Option Configured}
    (h : corsNew parseUri order origins allowHeaders exposeHeaders = .ok result) :
    ∃ configured, result = some configured ∧ Configures parseUri order origins allowHeaders exposeHeaders configured ∧
      AcceptsTexts parseUri origins allowHeaders exposeHeaders := by
  unfold corsNew at h
  rw [if_neg hne] at h
  obtain ⟨cors, h₁, h⟩ := Checked.bind_eq_ok.mp h
  obtain ⟨cors₂, h₂, h⟩ := Checked.bind_eq_ok.mp h
  obtain ⟨cors₃, h₃, h⟩ := Checked.bind_eq_ok.mp h
  obtain ⟨cors₄, h₄, h⟩ := Checked.bind_eq_ok.mp h
  obtain ⟨allowed, hallowed, h₂⟩ := Checked.bind_eq_ok.mp h₂
  obtain ⟨exposed, hexposed, h₃⟩ := Checked.bind_eq_ok.mp h₃
  obtain ⟨methods, hmethods, h₄⟩ := Checked.bind_eq_ok.mp h₄
  cases h
  cases h₂
  cases h₃
  cases h₄
  obtain ⟨hcors, hany, hlisted, haccepts⟩ := corsOrigins_eq_ok h₁
  have hmethods : methods = [.get, .head, .options] := by
    have : corsMethods.mapM (fun m => (Method.fromStr m).elim (Except.error "cors: illegal method".toList) .ok) =
        .ok [Method.get, .head, .options] := by decide
    exact Except.ok.inj (hmethods.symm.trans this)
  rw [hcors]
  refine ⟨_, rfl, ⟨hany, hlisted, mem_headerNames hallowed, mem_headerNames hexposed, fun method => ?_, rfl, rfl⟩,
    ⟨haccepts, fun text htext => ?_⟩⟩
  · rw [hmethods]
    exact mem_extend.trans (or_iff_right (by simp [Cors.new]))
  · rcases List.mem_append.mp htext with htext | htext
    · exact headerNames_isSome hallowed text htext
    · exact headerNames_isSome hexposed text htext

/-- The elements that a recipient of a list reads. -/
def Lists (value : HeaderValue) (listed : Str → Prop) : Prop :=
  ∃ text, HeaderValue.toStr value = some text ∧ ∀ element, element ∈ (text.splitOn ',').map Text.trim ↔ listed element

theorem trim_solid {s : Str} (h : s.all Static.isSolid = true) : Text.trim s = s ∧ Text.trim (' ' :: s) = s := by
  have hstart : Text.trimStart s = s := Static.trimStart_solid (by
    cases s with
    | nil => rfl
    | cons c s => exact (Bool.and_eq_true _ _ ▸ h).1)
  have htrim : Text.trim s = s := by
    unfold Text.trim
    rw [hstart, Static.trimEnd_solid h]
  exact ⟨htrim, htrim⟩

theorem splitOn_intercalate {v : Str} {vs : List Str} (hv : ',' ∉ v) (hvs : ∀ v ∈ vs, ',' ∉ v) :
    (", ".toList.intercalate (v :: vs)).splitOn ',' = v :: vs.map (' ' :: ·) := by
  induction vs generalizing v with
  | nil => rw [List.intercalate_singleton, List.splitOn_eq_singleton hv, List.map_nil]
  | cons v' vs ih =>
      have hv' : ',' ∉ ' ' :: v' := by simpa using hvs v' List.mem_cons_self
      have htail : ' ' :: ", ".toList.intercalate (v' :: vs) = ", ".toList.intercalate ((' ' :: v') :: vs) := by
        rw [List.intercalate_cons_cons_left]
      calc (", ".toList.intercalate (v :: v' :: vs)).splitOn ','
        _ = (v ++ ',' :: ", ".toList.intercalate ((' ' :: v') :: vs)).splitOn ',' := by
              rw [List.intercalate_cons_cons, ← htail, List.append_assoc]
              rfl
        _ = v :: (' ' :: v') :: vs.map (' ' :: ·) := by
              rw [List.splitOn_append_cons_self_of_not_mem hv, ih hv' fun w hw => hvs w (List.mem_cons_of_mem v' hw)]
        _ = v :: (v' :: vs).map (' ' :: ·) := by rw [List.map_cons]

theorem mem_intercalate {v : Str} {vs : List Str} {c : Char} (hc : c ∈ ", ".toList.intercalate (v :: vs)) :
    c ∈ ", ".toList ∨ ∃ w ∈ v :: vs, c ∈ w := by
  induction vs generalizing v with
  | nil => exact .inr ⟨v, List.mem_cons_self, by simpa using hc⟩
  | cons v' vs ih =>
      rw [List.intercalate_cons_cons, List.append_assoc, List.mem_append, List.mem_append] at hc
      rcases hc with hc | hc | hc
      · exact .inr ⟨v, List.mem_cons_self, hc⟩
      · exact .inl hc
      · exact (ih hc).imp_right fun ⟨w, hw, hcw⟩ => ⟨w, List.mem_cons_of_mem v hw, hcw⟩

/-- The list of some tokens says each of them, and nothing else. -/
theorem lists_flatCsv {values : List Str} (hne : values ≠ []) (h : ∀ v ∈ values, v.all Static.isSolid = true) :
    Lists (Cors.flatCsv values) (· ∈ values) := by
  obtain ⟨v, vs, rfl⟩ := List.exists_cons_of_ne_nil hne
  have hcomma : ∀ w ∈ v :: vs, ',' ∉ w := fun w hw hmem => (Static.solid_ne (h w hw) _ hmem).1 rfl
  have hprintable : (", ".toList.intercalate (v :: vs)).all HeaderValue.isPrintable = true :=
    List.all_eq_true.mpr fun c hc => by
      rcases mem_intercalate hc with hc | ⟨w, hw, hc⟩
      · exact List.all_eq_true.mp (by decide) c hc
      · have hsolid := List.all_eq_true.mp (h w hw) c hc
        exact ((Bool.and_eq_true _ _).mp hsolid).2
  refine ⟨_, (HeaderValue.fromStr_printable hprintable).2, fun element => ?_⟩
  rw [splitOn_intercalate (hcomma v List.mem_cons_self) fun w hw => hcomma w (List.mem_cons_of_mem v hw), List.map_cons,
    List.map_map, (trim_solid (h v List.mem_cons_self)).1]
  have htrim : vs.map (Text.trim ∘ (' ' :: ·)) = vs :=
    (List.map_congr_left fun w hw => (trim_solid (h w (List.mem_cons_of_mem v hw))).2).trans (List.map_id vs)
  rw [htrim]

theorem isTokenChar_toLower {c : Char} (h : isTokenChar c = true) : isTokenChar c.toLower = true := by
  unfold Char.toLower
  split
  · rename_i hupper
    have hlo : 65 ≤ c.val.toNat := hupper.1
    have hhi : c.val.toNat ≤ 90 := hupper.2
    have hlower : ∀ d : Char, d.val = c.val + ('a'.val - 'A'.val) → d.isLower = true := by
      intro d hd
      have hval : d.val.toNat = c.val.toNat + 32 := by
        rw [hd, UInt32.toNat_add]
        change (c.val.toNat + 32) % 2 ^ 32 = _
        omega
      unfold Char.isLower
      simp only [Bool.and_eq_true, decide_eq_true_eq]
      constructor
      · change 97 ≤ d.val.toNat
        omega
      · change d.val.toNat ≤ 122
        omega
    unfold isTokenChar Char.isAlphanum Char.isAlpha
    rw [hlower _ rfl, Bool.or_true, Bool.true_or, Bool.true_or]
  · exact h

theorem isSolid_fromStr {text : Str} {name : HeaderName} (h : HeaderName.fromStr text = some name) :
    name.all Static.isSolid = true := by
  unfold HeaderName.fromStr at h
  split at h
  · rename_i htoken
    cases h
    refine List.all_eq_true.mpr fun c hc => ?_
    obtain ⟨c', hc', rfl⟩ := List.mem_map.mp hc
    exact Static.isSolid_of_isTokenChar (isTokenChar_toLower (List.all_eq_true.mp htoken.2.2 c' hc'))
  · cases h

/-! ## The check -/

/-- What three texts demand of a request from an origin. -/
structure LetsThrough (parseUri : Str → Option Uri) (origins allowHeaders : Str) (origin : HeaderValue)
    (req : Request Body) : Prop where
  nonempty : origin ≠ []
  named : origins ≠ ['*'] → ∃ element ∈ origins.splitOn ',', NamesOrigin parseUri (Text.trim element) origin
  method : req.method = .options → ∃ line method, req.headers.get? .accessControlRequestMethod = some line ∧
    (HeaderValue.toStr line).bind Method.fromStr = some method ∧ method ∈ [Method.get, .head, .options]
  names : req.method = .options → ∀ line, req.headers.get? .accessControlRequestHeaders = some line →
    ∃ text, HeaderValue.toStr line = some text ∧ ∀ element ∈ text.splitOn ',', ∃ listed ∈ corsHeaderList allowHeaders,
      ∃ name, HeaderName.fromStr (Text.trim element) = some name ∧ HeaderName.fromStr listed = some name

section

variable {origins allowHeaders exposeHeaders : Str} {configured : Configured} {origin : HeaderValue} {req : Request Body}

theorem Configures.origin_iff (hc : Configures parseUri order origins allowHeaders exposeHeaders configured) :
    OriginAllowed configured.cors origin ↔ origin ≠ [] ∧
      (origins ≠ ['*'] → ∃ element ∈ origins.splitOn ',', NamesOrigin parseUri (Text.trim element) origin) := by
  refine and_congr_right fun _ => ?_
  constructor
  · intro hallowed hany
    obtain ⟨set, hset⟩ := Option.ne_none_iff_exists'.mp fun h => hany (hc.any.mp h)
    exact (hc.listed set hset origin).mp (hallowed set hset)
  · intro hnamed set hset
    have hany : origins ≠ ['*'] := fun h => by
      rw [hc.any.mpr h] at hset
      cases hset
    exact (hc.listed set hset origin).mpr (hnamed hany)

theorem Configures.nameAllowed_iff (hc : Configures parseUri order origins allowHeaders exposeHeaders configured)
    (element : Str) : NameAllowed configured.cors element ↔ ∃ listed ∈ corsHeaderList allowHeaders,
      ∃ name, HeaderName.fromStr element = some name ∧ HeaderName.fromStr listed = some name := by
  constructor
  · rintro ⟨name, hname, helement⟩
    obtain ⟨listed, hlisted, hlisted'⟩ := (hc.allowed name).mp hname
    exact ⟨listed, hlisted, name, helement, hlisted'⟩
  · rintro ⟨listed, hlisted, name, helement, hlisted'⟩
    exact ⟨name, (hc.allowed name).mpr ⟨listed, hlisted, hlisted'⟩, helement⟩

theorem Configures.passes_iff (hc : Configures parseUri order origins allowHeaders exposeHeaders configured) :
    configured.Passes req.method req.headers origin ↔ LetsThrough parseUri origins allowHeaders origin req := by
  have hmethod : (req.headers.get? .accessControlRequestMethod).any configured.isMethodAllowed = true ↔ ∃ line method,
      req.headers.get? .accessControlRequestMethod = some line ∧
        (HeaderValue.toStr line).bind Method.fromStr = some method ∧ method ∈ [Method.get, .head, .options] := by
    simp only [Configured.isMethodAllowed, Option.any_eq_true, decide_eq_true_eq]
    constructor
    · rintro ⟨line, hline, method, hmethod, hmem⟩
      exact ⟨line, method, hline, hmethod, (hc.methods method).mp hmem⟩
    · rintro ⟨line, method, hline, hmethod, hmem⟩
      exact ⟨line, hline, method, hmethod, (hc.methods method).mpr hmem⟩
  have hnames : configured.requestHeadersAllowed req.headers = true ↔
      ∀ line, req.headers.get? .accessControlRequestHeaders = some line → ∃ text, HeaderValue.toStr line = some text ∧
        ∀ element ∈ text.splitOn ',', ∃ listed ∈ corsHeaderList allowHeaders,
          ∃ name, HeaderName.fromStr (Text.trim element) = some name ∧ HeaderName.fromStr listed = some name := by
    simp only [Configured.requestHeadersAllowed, Option.all_eq_true, Option.any_eq_true, List.all_eq_true,
      isHeaderAllowed_iff, hc.nameAllowed_iff]
  unfold Configured.Passes
  rw [isOriginAllowed_iff, hc.origin_iff, hmethod, hnames]
  constructor
  · rintro ⟨⟨hnonempty, hnamed⟩, hpreflight⟩
    exact ⟨hnonempty, hnamed, fun h => (hpreflight h).1, fun h => (hpreflight h).2⟩
  · rintro ⟨hnonempty, hnamed, hmethod, hnames⟩
    exact ⟨⟨hnonempty, hnamed⟩, fun h => ⟨hmethod h, hnames h⟩⟩

end

/-! ## The answers -/

def markFields : List HeaderName :=
  [.accessControlAllowOrigin, .accessControlAllowHeaders, .accessControlExposeHeaders, .accessControlAllowMethods]

/-- The answer has the fields of the configuration, each of them once. -/
def Marked (cors : Configured) (origin : HeaderValue) (resp : Response Body) : Prop :=
  ∀ name ∈ markFields, resp.headers.getAll name = (cors.corsHeaders origin).getAll name

/-- Every answer that says something about the origin has all fields, unless an upstream has switched protocols. -/
def Marks (cors : Configured) (origin : HeaderValue) (outcome : Outcome) : Prop :=
  ∀ resp, outcome.result = .ok resp → Unmarked resp ∨ Marked cors origin resp ∨
    (outcome.sent ≠ [] ∧ resp.status = .switchingProtocols)

section

variable {crates : Crates} {w : World} {opts : RequestHandlerOpts} {remoteIp : Option Str} {req : Request Body}
  {cors : Configured} {origin : HeaderValue}

theorem Configured.corsHeaders_getAll (cors : Configured) (origin : HeaderValue) :
    (cors.corsHeaders origin).getAll .accessControlAllowHeaders = [cors.allowedHeaders] ∧
    (cors.corsHeaders origin).getAll .accessControlExposeHeaders = [cors.exposedHeaders] ∧
    (cors.corsHeaders origin).getAll .accessControlAllowMethods = [cors.methodsHeader] := by
  have hdistinct : (HeaderName.accessControlMaxAge :: markFields).Nodup := by decide
  simp only [markFields, List.nodup_cons, List.mem_cons, List.not_mem_nil, or_false, not_or] at hdistinct
  obtain ⟨⟨_, hmax₁, hmax₂, hmax₃⟩, ⟨ho₁, ho₂, ho₃⟩, ⟨ha₂, ha₃⟩, he₃, _⟩ := hdistinct
  unfold Configured.corsHeaders Configured.appendPreflightHeaders
  cases cors.cors.maxAge with
  | none => simp [Multimap.getAll_insert, ho₁, ho₂, ho₃, Ne.symm ha₂, Ne.symm ha₃, Ne.symm he₃]
  | some age =>
      simp [Multimap.getAll_insert, hmax₁, hmax₂, hmax₃, ho₁, ho₂, ho₃, Ne.symm ha₂, Ne.symm ha₃, Ne.symm he₃]

theorem corsPostProcess_marked (hcors : opts.cors = some cors) (horigin : req.headers.get? .origin = some origin)
    (hpasses : cors.Passes req.method req.headers origin) (resp : Response Body) :
    Marked cors origin (corsPostProcess opts req resp) := by
  intro name hname
  rcases cors.checkRequest_cases req.method horigin with ⟨_, validated, hcheck⟩ | ⟨hfails, _⟩
  · have hlines : ∃ value, (cors.corsHeaders origin).getAll name = [value] := by
      obtain ⟨hallowed, hexposed, hmethods⟩ := cors.corsHeaders_getAll origin
      simp only [markFields, List.mem_cons, List.not_mem_nil, or_false] at hname
      rcases hname with rfl | rfl | rfl | rfl
      · exact ⟨_, cors.corsHeaders_allowOrigin origin⟩
      · exact ⟨_, hallowed⟩
      · exact ⟨_, hexposed⟩
      · exact ⟨_, hmethods⟩
    obtain ⟨value, hlines⟩ := hlines
    have hne : cors.corsHeaders origin ≠ [] := fun h => by
      rw [h] at hlines
      cases hlines
    have hother : HeaderName.vary ≠ name ∧ HeaderName.allow ≠ name := by
      have hnot : ∀ name ∈ markFields, HeaderName.vary ≠ name ∧ HeaderName.allow ≠ name := by decide
      exact hnot name hname
    simp only [corsPostProcess, hcors, hcheck, hne, if_false, Response.removeHeader, Multimap.getAll_remove, hother.2,
      Response.insertHeader_getAll, hother.1, foldl_insertHeader_getAll, hlines]
    rfl
  · exact absurd hpasses hfails

theorem postProcess_marked (hcors : opts.cors = some cors) (horigin : req.headers.get? .origin = some origin)
    (hpasses : cors.Passes req.method req.headers origin) (hcustom : opts.advancedOpts.bind (·.headers) = none)
    (isMarkdown : Bool) (filePath : Option Posix.Path) (resp : Response Body) :
    Marked cors origin (postProcess crates opts req isMarkdown filePath resp) := by
  have hlast : ∀ resp, customHeadersPostProcess crates opts req resp filePath = resp := by
    intro resp
    unfold customHeadersPostProcess
    rw [hcustom]
  intro name hname
  have hkept : ∀ name ∈ markFields, name ∉ securityHeaders.map Prod.fst ∧ name ∉ [HeaderName.cacheControl] ∧
      name ∉ [HeaderName.vary, .contentEncoding, .contentLength] ∧ name ∉ [HeaderName.vary] ∧
      name ∉ [HeaderName.contentType] := by decide
  obtain ⟨hsecurity, hcontrol, hcompression, hvary, hcharset⟩ := hkept name hname
  rw [← corsPostProcess_marked hcors horigin hpasses (fallbackPostProcess opts req resp) name hname, postProcess_eq,
    afterCompression, hlast]
  exact ((securityHeadersPostProcess_changes opts _).kept _ hsecurity).trans <|
    ((controlHeadersPostProcess_changes opts req _).kept _ hcontrol).trans <|
    (compressionPostProcess_field req _ hcompression).trans <|
    ((compressionStaticPostProcess_changes opts _).kept _ hvary).trans <|
    ((textCharsetPostProcess_changes crates opts _).kept _ hcharset).trans <|
    (markdownPostProcess_changes isMarkdown opts _).kept _ hcharset

theorem marks_answer {resp : Response Body} (h : Unmarked resp) : Marks cors origin (.answer resp) := by
  intro resp' hresp
  cases hresp
  exact .inl h

theorem tryReverseProxy_marks (hcors : opts.cors = some cors) (horigin : req.headers.get? .origin = some origin)
    (hpasses : cors.Passes req.method req.headers origin) {outcome : Outcome}
    (h : tryReverseProxy crates w opts remoteIp req = some outcome) : Marks cors origin outcome := by
  obtain ⟨exchange, hexchange, houtcome⟩ := Option.bind_eq_some_iff.mp h
  cases houtcome
  intro resp hresp
  cases hresp
  unfold proxyAnswer
  cases hresult : exchange.result with
  | error e => exact .inl (errorPage_unmarked w opts req _)
  | ok relayed =>
      by_cases hstatus : relayed.status = .switchingProtocols
      · refine .inr (.inr ⟨preProcess_sent hexchange hresult hstatus, ?_⟩)
        simp only [hstatus, if_true]
      · refine .inr (.inl ?_)
        simp only [hstatus, if_false]
        exact corsPostProcess_marked hcors horigin hpasses relayed

theorem proxied_marks (hcors : opts.cors = some cors) (horigin : req.headers.get? .origin = some origin)
    (hpasses : cors.Passes req.method req.headers origin) (proxied : Prop) [Decidable proxied] {outcome : Outcome}
    (h : Marks cors origin outcome) :
    Marks cors origin ((if proxied then tryReverseProxy crates w opts remoteIp req else none).getD outcome) := by
  split
  · cases hproxy : tryReverseProxy crates w opts remoteIp req with
    | none => exact h
    | some answer => exact tryReverseProxy_marks hcors horigin hpasses hproxy
  · exact h

theorem serveStatic_marks (hcors : opts.cors = some cors) (horigin : req.headers.get? .origin = some origin)
    (hpasses : cors.Passes req.method req.headers origin) (hcustom : opts.advancedOpts.bind (·.headers) = none) :
    Marks cors origin (serveStatic crates w opts req) := by
  intro resp h
  unfold serveStatic at h
  dsimp only at h
  split at h
  · cases h
    exact .inr (.inl (postProcess_marked hcors horigin hpasses hcustom _ _ _))
  · cases h
    exact .inr (.inl (postProcess_marked hcors horigin hpasses hcustom _ _ _))
  · cases h

theorem handleRouted_marks (hcors : opts.cors = some cors) (horigin : req.headers.get? .origin = some origin)
    (hpasses : cors.Passes req.method req.headers origin) (hcustom : opts.advancedOpts.bind (·.headers) = none) :
    Marks cors origin (handleRouted crates w opts remoteIp req) := by
  have horigin' : (rewritesPreProcess crates w opts req).2.headers.get? .origin = some origin := by
    rw [Multimap.get?, rewritesPreProcess_headers (by decide)]
    exact horigin
  have hpasses' : cors.Passes (rewritesPreProcess crates w opts req).2.method
      (rewritesPreProcess crates w opts req).2.headers origin := by
    rw [← corsAdds_iff hcors horigin', corsAdds_rewritten]
    exact (corsAdds_iff hcors horigin).mpr hpasses
  unfold handleRouted
  cases hredirects : redirectsPreProcess crates w opts req with
  | some resp => exact marks_answer (redirectsPreProcess_unmarked hredirects)
  | none =>
      rcases hrewrites : rewritesPreProcess crates w opts req with ⟨_ | resp, req'⟩
      · rw [hrewrites] at horigin' hpasses'
        have hproxied : Marks cors origin ((if ¬ opts.proxyFirst = true then
            tryReverseProxy crates w opts remoteIp req' else none).getD (serveStatic crates w opts req')) :=
          proxied_marks hcors horigin' hpasses' _ (serveStatic_marks hcors horigin' hpasses' hcustom)
        simpa only [ite_not] using hproxied
      · exact marks_answer (rewritesPreProcess_unmarked (congrArg Prod.fst hrewrites))

theorem handle_marks (hcors : opts.cors = some cors) (horigin : req.headers.get? .origin = some origin)
    (hcustom : opts.advancedOpts.bind (·.headers) = none) : Marks cors origin (handle crates w opts remoteIp req) := by
  unfold handle
  split
  · exact marks_answer (errorPage_unmarked w opts req _)
  · cases hearly : (earlyStages crates w opts req).findSome? id with
    | some answer => exact marks_answer (earlyStages_unmarked hearly)
    | none =>
        have hpasses : cors.Passes req.method req.headers origin := by
          have hcheck := List.findSome?_eq_none_iff.mp hearly (corsPreProcess w opts req) (by simp [earlyStages])
          exact (corsPreProcess_eq_none_iff hcors horigin).mp hcheck
        exact proxied_marks hcors horigin hpasses _ (handleRouted_marks hcors horigin hpasses hcustom)

end

/-! ## From the texts to the answers -/

/-- What an answer to a request that may read it says. -/
structure SaysTexts (allowHeaders exposeHeaders : Str) (origin : HeaderValue) (resp : Response Body) : Prop where
  origin : allowOrigin resp = [origin]
  allowed : ∃ value, resp.headers.getAll .accessControlAllowHeaders = [value] ∧
    Lists value fun name => ∃ text ∈ corsHeaderList allowHeaders, HeaderName.fromStr text = some name
  exposed : ∃ value, resp.headers.getAll .accessControlExposeHeaders = [value] ∧
    Lists value fun name => ∃ text ∈ corsHeaderList exposeHeaders, HeaderName.fromStr text = some name
  methods : ∃ value, resp.headers.getAll .accessControlAllowMethods = [value] ∧
    Lists value fun name => name ∈ corsMethods

structure GovernsOrigin (crates : Crates) (w : World) (opts : RequestHandlerOpts) (remoteIp : Option Str)
    (parseUri : Str → Option Uri) (origins allowHeaders exposeHeaders : Str) (origin : HeaderValue) (req : Request Body) :
    Prop where
  accepted : AcceptsTexts parseUri origins allowHeaders exposeHeaders
  checked : corsPreProcess w opts req = none ↔ LetsThrough parseUri origins allowHeaders origin req
  refused : ReachesCheck w opts req → ¬ LetsThrough parseUri origins allowHeaders origin req →
    handle crates w opts remoteIp req = .answer (errorPage w opts req .forbidden)
  marked : opts.advancedOpts.bind (·.headers) = none → ∀ resp, (handle crates w opts remoteIp req).result = .ok resp →
    Unmarked resp ∨ SaysTexts allowHeaders exposeHeaders origin resp ∨
      ((handle crates w opts remoteIp req).sent ≠ [] ∧ resp.status = .switchingProtocols)

theorem corsHeaderList_ne_nil (s : Str) : corsHeaderList s ≠ [] := by
  unfold corsHeaderList
  split
  · exact List.cons_ne_nil _ _
  · exact fun h => List.splitOn_ne_nil _ _ (List.map_eq_nil_iff.mp h)

/-- The names of an option, listed in any order, are read as these names. -/
theorem lists_names {texts : List Str} {names : List HeaderName} (horder : ∀ l : List Str, (order l).Perm l)
    (hne : texts ≠ []) (hlegal : ∀ text ∈ texts, (HeaderName.fromStr text).isSome = true)
    (hnames : ∀ name, name ∈ names ↔ ∃ text ∈ texts, HeaderName.fromStr text = some name) :
    Lists (Cors.flatCsv (order names)) fun name => ∃ text ∈ texts, HeaderName.fromStr text = some name := by
  have hmem : ∀ name, name ∈ order names ↔ ∃ text ∈ texts, HeaderName.fromStr text = some name := fun name =>
    (horder names).mem_iff.trans (hnames name)
  obtain ⟨text, htext⟩ := List.exists_mem_of_ne_nil texts hne
  obtain ⟨name, hname⟩ := Option.isSome_iff_exists.mp (hlegal text htext)
  have hlists := lists_flatCsv (List.ne_nil_of_mem ((hmem name).mpr ⟨text, htext, hname⟩)) fun v hv => by
    obtain ⟨_, _, hfrom⟩ := (hmem v).mp hv
    exact isSolid_fromStr hfrom
  obtain ⟨value, hvalue, helements⟩ := hlists
  exact ⟨value, hvalue, fun element => (helements element).trans (hmem element)⟩

theorem saysTexts_of_marked {origins allowHeaders exposeHeaders : Str} {configured : Configured} {origin : HeaderValue}
    {resp : Response Body} (horder : ∀ l : List Str, (order l).Perm l)
    (hc : Configures parseUri order origins allowHeaders exposeHeaders configured)
    (haccepts : AcceptsTexts parseUri origins allowHeaders exposeHeaders) (h : Marked configured origin resp) :
    SaysTexts allowHeaders exposeHeaders origin resp := by
  obtain ⟨hallowed, hexposed, hmethods⟩ := configured.corsHeaders_getAll origin
  have hbuilt := hc.built
  refine ⟨(h _ (by decide)).trans (configured.corsHeaders_allowOrigin origin), ⟨_, (h _ (by decide)).trans hallowed, ?_⟩,
    ⟨_, (h _ (by decide)).trans hexposed, ?_⟩, ⟨_, (h _ (by decide)).trans hmethods, ?_⟩⟩
  · rw [hbuilt]
    exact lists_names horder (corsHeaderList_ne_nil _) (fun text htext => haccepts.names text (List.mem_append_left _ htext))
      hc.allowed
  · rw [hbuilt]
    exact lists_names horder (corsHeaderList_ne_nil _) (fun text htext => haccepts.names text (List.mem_append_right _ htext))
      hc.exposed
  · rw [hbuilt]
    have hmem : ∀ name, name ∈ order (configured.cors.allowedMethods.map Method.asStr) ↔ name ∈ corsMethods := by
      intro name
      rw [(horder _).mem_iff, List.mem_map]
      simp only [hc.methods]
      have hasStr : corsMethods = [Method.get, .head, .options].map Method.asStr := rfl
      rw [hasStr, List.mem_map]
    have hne : order (configured.cors.allowedMethods.map Method.asStr) ≠ [] :=
      List.ne_nil_of_mem ((hmem "GET".toList).mpr (by decide))
    obtain ⟨value, hvalue, helements⟩ := lists_flatCsv hne fun v hv => by
      have hsolid : ∀ v ∈ corsMethods, v.all Static.isSolid = true := by decide
      exact hsolid v ((hmem v).mp hv)
    exact ⟨value, hvalue, fun element => (helements element).trans (hmem element)⟩

/-- The texts of the options decide about every request with an origin. -/
theorem corsInit_governs {crates : Crates} {w : World} {opts : RequestHandlerOpts} {remoteIp : Option Str}
    {req : Request Body} {origin : HeaderValue} {origins allowHeaders exposeHeaders : Str}
    (horder : ∀ l : List Str, (order l).Perm l)
    (hinit : corsInit parseUri order origins allowHeaders exposeHeaders = .ok opts.cors)
    (hon : Text.trim origins ≠ []) (horigin : req.headers.get? .origin = some origin) :
    GovernsOrigin crates w opts remoteIp parseUri (Text.trim origins) (Text.trim allowHeaders) (Text.trim exposeHeaders)
      origin req := by
  obtain ⟨configured, hcors, hc, haccepts⟩ := corsNew_eq_ok hon hinit
  have hpasses : configured.Passes req.method req.headers origin ↔ _ := hc.passes_iff
  refine ⟨haccepts, (corsPreProcess_eq_none_iff hcors horigin).trans hpasses, fun hreaches hno => ?_,
    fun hcustom resp hresp => ?_⟩
  · exact handle_refused hcors horigin hreaches fun h => hno (hpasses.mp h)
  · exact (handle_marks hcors horigin hcustom resp hresp).imp_right
      (.imp_left (saysTexts_of_marked horder hc haccepts))

def twoOrigins : Str := " http://a.example/, http://b.example:8080".toList

def twoOriginsOpts : RequestHandlerOpts :=
  { sampleOpts with
    cors := ((corsInit parseHttpUri List.reverse twoOrigins [] "X-B,x-a".toList).toOption.bind id) }

theorem corsInit_governs_second : GovernsOrigin sampleCrates sampleWorld twoOriginsOpts none parseHttpUri
    (Text.trim twoOrigins) (Text.trim []) (Text.trim "X-B,x-a".toList) (Static.named "http://b.example:8080")
    (requestFrom "http://b.example:8080" .get) := by
  have haccepted : (corsInit parseHttpUri List.reverse twoOrigins [] "X-B,x-a".toList).toOption.isSome = true := by
    decide +kernel
  have hinit : corsInit parseHttpUri List.reverse twoOrigins [] "X-B,x-a".toList = .ok twoOriginsOpts.cors := by
    obtain ⟨result, hresult⟩ := Option.isSome_iff_exists.mp haccepted
    unfold twoOriginsOpts
    rw [hresult]
    exact Checked.toOption_eq_some.mp hresult
  exact corsInit_governs (fun l => l.reverse_perm) hinit (by decide) rfl

end WeaveGate.Handler
