import WeaveGate.Lib.Html
import WeaveGate.Static.AutoIndex
import WeaveGate.Static.Handle

/-!
# The text of an index page

`directory_listing/autoindex/html.rs` and `style.rs`: the markup of the page, with the sizes as they are shown.
-/

namespace WeaveGate.Static

open Html (Token element void)

/-! ## Sizes -/

/-- `{:.2}` of a number of 1024ths, which a double holds exactly. A tie goes to the even digit. -/
def twoDecimals (n : Nat) : Str :=
  let hundredths := n * 100 / 1024
  let rest := n * 100 % 1024
  let rounded := if 512 < rest ∨ rest = 512 ∧ hundredths % 2 = 1 then hundredths + 1 else hundredths
  Nat.toDigits 10 (rounded / 100) ++ '.' :: Nat.toDigits 10 (rounded % 100 / 10) ++ Nat.toDigits 10 (rounded % 10)

/-- The loop over the units. The last one is for what is too large for the others. -/
def formatFrom : List Str → Nat → Str
  | [], sizeTmp => twoDecimals sizeTmp ++ " PiB".toList
  | unit :: units, sizeTmp =>
      if sizeTmp < 1024 * 1024 then twoDecimals sizeTmp ++ ' ' :: unit else formatFrom units (sizeTmp / 1024)

def formatFileSize (size : Nat) : Str :=
  if size < 1024 then Nat.toDigits 10 size ++ " B".toList
  else formatFrom ["KiB".toList, "MiB".toList, "GiB".toList, "TiB".toList] size

/-! ## The page -/

def styles : Str := List.intercalate ['\n'] (List.map String.toList
  [ "",
    ":after, :before \x7b box-sizing: border-box; \x7d",
    "html \x7b",
    "    color-scheme: light dark;",
    "    -moz-osx-font-smoothing: grayscale;",
    "    -webkit-font-smoothing: antialiased;",
    "    min-width: 20rem;",
    "    text-rendering: optimizeLegibility;",
    "    -webkit-text-size-adjust: 100%;",
    "    -moz-text-size-adjust: 100%;",
    "    text-size-adjust: 100%",
    "\x7d",
    "body \x7b",
    "    padding: 1rem;",
    "    font-family: Consolas, \x27Liberation Mono\x27, Menlo, monospace;",
    "    font-size: .75rem;",
    "    max-width: 70rem;",
    "    margin: 0 auto;",
    "    font-weight: 400;",
    "    line-height: 1.5",
    "\x7d",
    "h1 \x7b",
    "    margin: 0;",
    "    padding: 0;",
    "    font-size: 1rem;",
    "    line-height: 1.25;",
    "    margin-bottom: 0.5rem;",
    "\x7d",
    "table \x7b",
    "    width: 100%;",
    "    table-layout: fixed;",
    "    border-spacing: 0;",
    "\x7d",
    "hr \x7b border-style: none; border-bottom: solid 1px gray; \x7d",
    "table th, table td \x7b",
    "    padding: .15rem 0;",
    "    white-space: nowrap;",
    "    vertical-align: top",
    "\x7d",
    "table th a, table td a \x7b",
    "    display: inline-block;",
    "    white-space: nowrap;",
    "    overflow: hidden;",
    "    text-overflow: ellipsis;",
    "    max-width: 95%;",
    "    vertical-align: top;",
    "\x7d",
    "table tr:hover td \x7b background-color: rgba(200, 200, 200, 0.2); \x7d",
    "footer \x7b padding-top: 0.5rem; \x7d",
    "table tr th \x7b text-align: left; \x7d",
    "",
    "@media (max-width:30rem) \x7b",
    "    table th:first-child \x7b width: 20rem; \x7d",
    "\x7d",
    "@media (prefers-color-scheme: dark) \x7b",
    "    table tr:hover td \x7b background-color: rgba(0, 0, 0, 0.2); \x7d",
    "\x7d",
    "@media (prefers-color-scheme: light) \x7b",
    "    table tr:hover td \x7b background-color: rgba(200, 200, 200, 0.2); \x7d",
    "\x7d",
    "" ])

def link (href : Str) (children : List Token) : List Token := element "a".toList [("href".toList, href)] children

def headCell (attrs : Html.Attrs) (code : Str) (text : String) : List Token :=
  element "th".toList attrs (link ("?sort=".toList ++ code) [.text text.toList])

/-- `fmtLocal` is the local time in the format `%F %T`. -/
def HtmlRow.markup (fmtLocal : Int → Str) (r : HtmlRow) : List Token :=
  element "tr".toList [] (
    element "td".toList [] (link r.href ([.text r.name] ++ if r.isDir then [.text "/".toList] else [])) ++
    element "td".toList [] [.text (fmtLocal r.mtime)] ++
    element "td".toList [("align".toList, "right".toList)]
      [.text ((r.size.map formatFileSize).getD "-".toList)])

def parentMarkup : List Token :=
  element "tr".toList [] (element "td".toList [("colspan".toList, "3".toList)] (link "../".toList [.text "../".toList]))

def HtmlIndex.markup (fmtLocal : Int → Str) (p : HtmlIndex) : List Token :=
  .doctype :: element "html".toList [] (
    element "head".toList [] (
      void "meta".toList [("charset".toList, "utf-8".toList)] ++
      void "meta".toList [("name".toList, "viewport".toList),
        ("content".toList, "width=device-width,minimum-scale=1,initial-scale=1".toList)] ++
      element "title".toList [] [.text "Index of ".toList, .text p.currentPath] ++
      element "style".toList [] [.text (Text.replace "  ".toList [] (Text.replace "\n".toList [] styles))]) ++
    element "body".toList [] (
      element "h1".toList [] [.text "Index of ".toList, .text p.currentPath] ++
      element "p".toList [] (element "small".toList [] (
        [.text "directories: ".toList, .text (Nat.toDigits 10 p.dirsCount), .text ", files: ".toList,
          .text (Nat.toDigits 10 p.filesCount)] ++
        if p.downloadLink then
          .text ", ".toList :: link ('?' :: downloadParamKey) [.text "download tar.gz".toList]
        else [])) ++
      void "hr".toList [] ++
      element "div".toList [("style".toList, "overflow-x: auto;".toList)] (
        element "table".toList [] (
          element "thead".toList [] (element "tr".toList [] (
            headCell [] p.sortAttrs.name "Name" ++
            headCell [("style".toList, "width:10rem;".toList)] p.sortAttrs.lastModified "Last modified" ++
            headCell [("style".toList, "width:6rem;text-align:right;".toList)] p.sortAttrs.size "Size")) ++
          (if p.parentRow then parentMarkup else []) ++
          p.rows.flatMap (HtmlRow.markup fmtLocal))) ++
      void "hr".toList [] ++
      element "footer".toList [] (element "small".toList []
        [.text "Powered by WeaveGate (SWS) / weavegate".toList])))

def HtmlIndex.text (fmtLocal : Int → Str) (p : HtmlIndex) : Str := Html.write (p.markup fmtLocal)

end WeaveGate.Static
