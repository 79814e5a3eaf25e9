import WeaveGate.Static.IndexPage
import WeaveGate.Static.Theorems.AutoIndex

/-!
# Index pages as they are read

A reader of the page finds the links, the cells and the title that the listing put there, and nothing that a file name
or a path brought along.
-/

namespace WeaveGate.Static

open Http
open Html (Token element void)
open Posix (Octets Path Name FileTree Canon)

/-! ## The tokens of the page -/

def indexTags : List Str :=
  ["html", "head", "meta", "title", "style", "body", "h1", "p", "small", "a", "hr", "div", "table", "thead", "tr", "th",
    "td", "footer"].map String.toList

def indexAttrs : List Str :=
  ["charset", "name", "content", "style", "href", "colspan", "align"].map String.toList

/-- Only the tags and attributes of the template. -/
def InTemplate : Token → Prop
  | .doctype => True
  | .startTag tag attrs => tag ∈ indexTags ∧ ∀ attr ∈ attrs, attr.1 ∈ indexAttrs
  | .endTag tag => tag ∈ indexTags
  | .text _ => True

theorem InTemplate.legal {token : Token} (h : InTemplate token) : token.Legal := by
  have htags : ∀ tag ∈ indexTags, Html.isName tag = true := by decide +kernel
  have hattrs : ∀ name ∈ indexAttrs, Html.isName name = true := by decide +kernel
  cases token with
  | doctype => trivial
  | startTag tag attrs => exact ⟨htags tag h.1, fun attr hattr => hattrs attr.1 (h.2 attr hattr)⟩
  | endTag tag => exact htags tag h
  | text content => trivial

theorem row_inTemplate (fmtLocal : Int → Str) (r : HtmlRow) : ∀ token ∈ r.markup fmtLocal, InTemplate token := by
  unfold HtmlRow.markup link element
  cases r.isDir <;> simp +decide [InTemplate]

theorem markup_inTemplate (fmtLocal : Int → Str) (p : HtmlIndex) :
    ∀ token ∈ p.markup fmtLocal, InTemplate token := by
  have hrows : ∀ token ∈ p.rows.flatMap (HtmlRow.markup fmtLocal), InTemplate token := fun token htoken => by
    obtain ⟨r, _, hr⟩ := List.mem_flatMap.mp htoken
    exact row_inTemplate fmtLocal r token hr
  unfold HtmlIndex.markup headCell parentMarkup link void
  cases p.downloadLink <;> cases p.parentRow <;>
    simp only [Html.forall_mem_element, List.forall_mem_cons, List.forall_mem_append, eq_true hrows,
      Bool.false_eq_true, if_true, if_false] <;>
    simp +decide [InTemplate]

/-! ## Links, cells and the title -/

def attr (name : String) (value : Str) : Html.Attrs := [(name.toList, value)]

/-- The link of a row, with a slash behind the name of a directory. -/
def HtmlRow.linkRead (r : HtmlRow) : Html.Attrs × Str := (attr "href" r.href, r.name ++ if r.isDir then ['/'] else [])

def HtmlRow.cellsRead (fmtLocal : Int → Str) (r : HtmlRow) : List (Html.Attrs × Str) :=
  [([], r.linkRead.2), ([], fmtLocal r.mtime), (attr "align" "right".toList, (r.size.map formatFileSize).getD ['-'])]

theorem closed_link (fmtLocal : Int → Str) (r : HtmlRow) :
    Html.Closed "a".toList (r.markup fmtLocal) [r.linkRead] := fun complete => by
  unfold HtmlRow.markup HtmlRow.linkRead link element attr
  cases r.isDir <;> simp +decide [Html.Elements.next]

theorem closed_cells (fmtLocal : Int → Str) (r : HtmlRow) :
    Html.Closed "td".toList (r.markup fmtLocal) (r.cellsRead fmtLocal) := fun complete => by
  unfold HtmlRow.markup HtmlRow.cellsRead HtmlRow.linkRead link element attr
  cases r.isDir <;> simp +decide [Html.Elements.next]

theorem closed_title (fmtLocal : Int → Str) (r : HtmlRow) :
    Html.Closed "title".toList (r.markup fmtLocal) [] := fun complete => by
  unfold HtmlRow.markup link element
  cases r.isDir <;> simp +decide [Html.Elements.next]

/-- The links of the page, the one to the archive first. -/
def HtmlIndex.linksRead (p : HtmlIndex) : List (Html.Attrs × Str) :=
  (if p.downloadLink then [(attr "href" ('?' :: downloadParamKey), "download tar.gz".toList)] else []) ++
  [(attr "href" ("?sort=".toList ++ p.sortAttrs.name), "Name".toList),
    (attr "href" ("?sort=".toList ++ p.sortAttrs.lastModified), "Last modified".toList),
    (attr "href" ("?sort=".toList ++ p.sortAttrs.size), "Size".toList)] ++
  (if p.parentRow then [(attr "href" "../".toList, "../".toList)] else []) ++ p.rows.map HtmlRow.linkRead

def HtmlIndex.cellsRead (fmtLocal : Int → Str) (p : HtmlIndex) : List (Html.Attrs × Str) :=
  (if p.parentRow then [(attr "colspan" "3".toList, "../".toList)] else []) ++
    p.rows.flatMap (HtmlRow.cellsRead fmtLocal)

theorem elements_links (fmtLocal : Int → Str) (p : HtmlIndex) :
    Html.elements "a".toList (p.markup fmtLocal) = p.linksRead := by
  have hrows := fun complete => Html.Closed.flatMap (fun r (_ : r ∈ p.rows) => closed_link fmtLocal r) complete
  rw [← List.map_eq_flatMap] at hrows
  unfold HtmlIndex.markup HtmlIndex.linksRead headCell parentMarkup link element void attr
  cases p.downloadLink <;> cases p.parentRow <;> simp +decide [Html.elements, Html.Elements.next]
  all_goals exact congrArg Html.Elements.complete (hrows _)

theorem elements_cells (fmtLocal : Int → Str) (p : HtmlIndex) :
    Html.elements "td".toList (p.markup fmtLocal) = p.cellsRead fmtLocal := by
  have hrows := fun complete => Html.Closed.flatMap (fun r (_ : r ∈ p.rows) => closed_cells fmtLocal r) complete
  unfold HtmlIndex.markup HtmlIndex.cellsRead headCell parentMarkup link element void attr
  cases p.downloadLink <;> cases p.parentRow <;> simp +decide [Html.elements, Html.Elements.next]
  all_goals exact congrArg Html.Elements.complete (hrows _)

theorem elements_title (fmtLocal : Int → Str) (p : HtmlIndex) :
    Html.elements "title".toList (p.markup fmtLocal) = [([], "Index of ".toList ++ p.currentPath)] := by
  have hrows := fun complete => Html.Closed.flatMap (fun r (_ : r ∈ p.rows) => closed_title fmtLocal r) complete
  have hnone : (p.rows.flatMap fun _ => ([] : List (Html.Attrs × Str))) = [] :=
    List.flatMap_eq_nil_iff.mpr fun _ _ => rfl
  rw [hnone] at hrows
  unfold HtmlIndex.markup headCell parentMarkup link element void
  cases p.downloadLink <;> cases p.parentRow <;> simp +decide [Html.elements, Html.Elements.next]
  all_goals exact congrArg Html.Elements.complete (hrows _)

/-! ## Sort links -/

inductive Column where
  | name
  | lastModified
  | size

def Column.title : Column → Str
  | .name => "Name".toList
  | .lastModified => "Last modified".toList
  | .size => "Size".toList

/-- The order code for rising values. The next code is for falling ones. -/
def Column.ascending : Column → Nat
  | .name => 0
  | .lastModified => 2
  | .size => 4

/-- What the link of a column asks for on a page in some order. -/
def Column.next (column : Column) (code : Nat) : Nat :=
  if code = column.ascending then column.ascending + 1 else column.ascending

def Column.sortQuery (column : Column) (code : Nat) : Str := "sort=".toList ++ Nat.toDigits 10 (column.next code)

/-- A query of one pair is read as that pair. -/
def ReadsSortQuery (crates : Crates) : Prop :=
  ∀ code, crates.formPairs ("sort=".toList ++ Nat.toDigits 10 code) = [("sort".toList, Nat.toDigits 10 code)]

theorem Column.next_le (column : Column) (code : Nat) : column.next code ≤ 5 := by
  unfold Column.next
  split_ifs <;> cases column <;> decide

theorem orderCode_sortQuery {crates : Crates} (h : ReadsSortQuery crates) (opts : HandleOpts) (column : Column)
    (code : Nat) : orderCode crates { opts with uriQuery := some (column.sortQuery code) } = column.next code := by
  have hle := column.next_le code
  have hfound : (crates.formPairs (column.sortQuery code)).find? (fun p => p.1 = "sort".toList) =
      some ("sort".toList, Nat.toDigits 10 (column.next code)) := by
    rw [Column.sortQuery, h]
    rfl
  have hdigits : ∀ d ≤ 5, Text.trim (Nat.toDigits 10 d) = Nat.toDigits 10 d := by decide
  have hparsed : Text.parseUnsigned 255 (Nat.toDigits 10 (column.next code)) = some (column.next code) :=
    Text.parseUnsigned_toDigits (by omega)
  unfold orderCode
  rw [Option.bind_some, hfound, Option.bind_some, hdigits _ hle, hparsed, Option.getD_some]

theorem sortAttrs_eq (lowercase : Str → Str) (files : List FileEntry) (code : Nat) :
    (sortFileEntries lowercase files code).2 = ⟨Nat.toDigits 10 (Column.name.next code),
      Nat.toDigits 10 (Column.lastModified.next code), Nat.toDigits 10 (Column.size.next code)⟩ := by
  match code with
  | 0 | 1 | 2 | 3 | 4 | 5 => rfl
  | n + 6 =>
      have hnext : ∀ column : Column, column.next (n + 6) = column.ascending := fun column =>
        if_neg (by cases column <;> simp only [Column.ascending] <;> omega)
      rw [hnext, hnext, hnext]
      rfl

/-- On a page in the order of a column, its link turns the rows around. On any other page it sorts them. -/
theorem rows_next (lowercase : Str → Str) (files : List FileEntry) (column : Column) (code : Nat) :
    (sortFileEntries lowercase files (column.next code)).1 =
      if code = column.ascending ∨ code = column.ascending + 1 then (sortFileEntries lowercase files code).1.reverse
      else (sortFileEntries lowercase files column.ascending).1 := by
  unfold Column.next
  by_cases hrising : code = column.ascending
  · subst hrising
    rw [if_pos rfl, if_pos (.inl rfl)]
    cases column <;> rfl
  · rw [if_neg hrising]
    by_cases hfalling : code = column.ascending + 1
    · subst hfalling
      rw [if_pos (.inr rfl)]
      cases column <;> exact (List.reverse_reverse _).symm
    · rw [if_neg (not_or.mpr ⟨hrising, hfalling⟩)]

/-! ## The page that is sent -/

theorem read_text (fmtLocal : Int → Str) (p : HtmlIndex) :
    Html.read (p.text fmtLocal) = some (Html.join (p.markup fmtLocal)) :=
  Html.read_write fun token htoken => (markup_inTemplate fmtLocal p token htoken).legal

/-- The head of the table has a link for each column. -/
theorem sortQuery_mem {lowercase : Str → Str} {files : List FileEntry} {code : Nat} {p : HtmlIndex}
    (h : p.sortAttrs = (sortFileEntries lowercase files code).2) (column : Column) :
    (attr "href" ('?' :: column.sortQuery code), column.title) ∈ p.linksRead := by
  have hmark : "?sort=".toList = '?' :: "sort=".toList := rfl
  rw [HtmlIndex.linksRead, h, sortAttrs_eq, hmark]
  refine List.mem_append_left _ (List.mem_append_left _ (List.mem_append_right _ ?_))
  cases column with
  | name => exact List.mem_cons_self
  | lastModified => exact List.mem_cons_of_mem _ List.mem_cons_self
  | size => exact List.mem_cons_of_mem _ (List.mem_cons_of_mem _ List.mem_cons_self)

/-- A reader of the page of a directory finds the links and cells of its rows, whatever the names in it are, and no
tag or attribute beside those of the template. The link in the head of a column leads to the page with the rows in
the order of that column, or turned around. -/
theorem index_page_read (lowercase : Str → Str) {crates : Crates} (fmtLocal : Int → Str)
    (json : List JsonEntry → Octets) {t : FileTree} {opts : HandleOpts} {filepath : Path} {resp : Response Body}
    (hsort : ReadsSortQuery crates) (hformat : opts.dirListingFormat = .html) (hmethod : opts.method ≠ .head)
    (h : autoIndex (withPages lowercase crates (fun p => Posix.utf8 (p.text fmtLocal)) json) t opts filepath =
      .ok resp) :
    ∃ names rootPathAbs, t.readDir ((Posix.Path.parent filepath).getD filepath) = .ok names ∧
      t.canonicalize opts.basePath = .ok rootPathAbs ∧
      let rows := listingRows lowercase t opts rootPathAbs ((Posix.Path.parent filepath).getD filepath) names
      let code := orderCode crates opts
      ∃ page : HtmlIndex, page.rows = (rows code).map FileEntry.htmlRow ∧
        page.currentPath = Utf8.decodeLossy (Percent.decode (Posix.utf8 opts.uriPath)) ∧
      ∃ bytes tokens, resp.body = .full bytes ∧ Html.read (Utf8.decodeLossy bytes) = some tokens ∧
        Html.elements "a".toList tokens = page.linksRead ∧
        Html.elements "td".toList tokens = page.cellsRead fmtLocal ∧
        Html.elements "title".toList tokens = [([], "Index of ".toList ++ page.currentPath)] ∧
        (∀ tag attrs, .startTag tag attrs ∈ tokens → tag ∈ indexTags ∧ ∀ attr ∈ attrs, attr.1 ∈ indexAttrs) ∧
        ∀ column : Column, ∃ query, (attr "href" ('?' :: query), column.title) ∈ Html.elements "a".toList tokens ∧
          rows (orderCode crates { opts with uriQuery := some query }) =
            if code = column.ascending ∨ code = column.ascending + 1 then (rows code).reverse
            else rows column.ascending := by
  obtain ⟨names, hnames, hread⟩ := autoIndex_ok h
  obtain ⟨rootPathAbs, hroot, _, hresp⟩ := readDirEntries_eq_ok hread
  refine ⟨names, rootPathAbs, hnames, hroot, ?_⟩
  intro rows code
  obtain ⟨entries, hentries⟩ : ∃ entries, entries = names.filterMap (fileEntry t opts rootPathAbs
    ((Posix.Path.parent filepath).getD filepath)) := ⟨_, rfl⟩
  obtain ⟨page, hpage⟩ : ∃ page, page = htmlAutoIndex lowercase opts.uriPath (entries.countP (·.type = .directory))
    (entries.countP (·.type = .file)) entries code opts.dirListingDownload := ⟨_, rfl⟩
  have hbody : resp.body = .full (Posix.utf8 (page.text fmtLocal)) := by
    have hget : ¬ methodIsHead opts.method = true := by simpa [methodIsHead] using hmethod
    rw [hresp, entriesReply_body, if_neg hget, hformat, ← hentries, hpage]
    rfl
  refine ⟨page, by rw [hpage, hentries]; rfl, by rw [hpage]; rfl, _, _, hbody,
    (congrArg Html.read (Utf8.decodeLossy_utf8 _)).trans (read_text fmtLocal page), ?_, ?_, ?_, ?_, ?_⟩
  · rw [Html.elements_join, elements_links]
  · rw [Html.elements_join, elements_cells]
  · rw [Html.elements_join, elements_title]
  · intro tag attrs hmem
    exact markup_inTemplate fmtLocal _ _ ((Html.mem_join fun content heq => by cases heq).mp hmem)
  · intro column
    refine ⟨column.sortQuery code, ?_, ?_⟩
    · rw [Html.elements_join, elements_links]
      exact sortQuery_mem (congrArg HtmlIndex.sortAttrs hpage) column
    · rw [orderCode_sortQuery hsort]
      exact rows_next lowercase _ column code

/-- `/srv` holds a directory and a file with markup for names. -/
def markupDir : FileTree :=
  { nodes :=
      [ ([], sampleDir [named "srv"]), ([named "srv"], sampleDir [named "<b>", named "\"&lt;"]),
        ([named "srv", named "<b>"], sampleDir []), ([named "srv", named "\"&lt;"], sampleFile (named "hello")) ]
    cwd := [], symloopMax := 40, wf := by decide }

def sortCrates : Crates :=
  { sampleCrates with formPairs := fun query => (Text.splitOnce '=' query).toList }

theorem sortCrates_readsSortQuery : ReadsSortQuery sortCrates := fun code => by
  have hsplit : Text.splitOnce '=' ("sort".toList ++ '=' :: Nat.toDigits 10 code) =
      some ("sort".toList, Nat.toDigits 10 code) := Text.splitOnce_append (by simp)
  exact congrArg Option.toList hsplit

def markupIndex : Except Failure (Response Body) :=
  autoIndex (withPages Text.toAsciiLowercase sortCrates (fun p => Posix.utf8 (p.text fun _ => ['-'])) fun _ => [])
    markupDir (sampleOpts "/") (Posix.canonPath [named "srv", named "index.html"])

theorem index_page_read_markup : ∃ resp bytes tokens, markupIndex = .ok resp ∧ resp.body = .full bytes ∧
    Html.read (Utf8.decodeLossy bytes) = some tokens ∧
    (attr "href" "%3Cb%3E/".toList, "<b>/".toList) ∈ Html.elements "a".toList tokens ∧
    (attr "href" "%22%26lt%3B".toList, "\"&lt;".toList) ∈ Html.elements "a".toList tokens ∧
    ∀ attrs, .startTag ['b'] attrs ∉ tokens := by
  have hsent : markupIndex.toOption.isSome = true := by decide +kernel
  obtain ⟨resp, hresp⟩ := Option.isSome_iff_exists.mp hsent
  have hresp := Checked.toOption_eq_some.mp hresp
  obtain ⟨names, rootPathAbs, hnames, hroot, page, hrows, _, bytes, tokens, hbody, hread, hlinks, _, _, htags, _⟩ :=
    index_page_read Text.toAsciiLowercase (fun _ => ['-']) (fun _ => []) sortCrates_readsSortQuery rfl (by decide) hresp
  have hnames' : markupDir.readDir ((Posix.Path.parent (Posix.canonPath [named "srv", named "index.html"])).getD
    (Posix.canonPath [named "srv", named "index.html"])) = .ok [named "<b>", named "\"&lt;"] := by decide +kernel
  have hroot' : markupDir.canonicalize (sampleOpts "/").basePath = .ok [named "srv"] := by decide +kernel
  cases hnames.symm.trans hnames'
  cases hroot.symm.trans hroot'
  refine ⟨resp, bytes, tokens, hresp, hbody, hread, ?_, ?_, fun attrs hmem => ?_⟩
  · rw [hlinks, HtmlIndex.linksRead, hrows]
    exact List.mem_append_right _ (by decide +kernel)
  · rw [hlinks, HtmlIndex.linksRead, hrows]
    exact List.mem_append_right _ (by decide +kernel)
  · exact absurd (htags _ attrs hmem).1 (by decide)

end WeaveGate.Static
