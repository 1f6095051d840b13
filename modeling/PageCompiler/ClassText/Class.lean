import PageCompiler.ClassText.Custom

-- The statements of the page are generated first; what they need of the class is then known, and
-- the class is put together around them.
namespace PageCompiler.ClassText

open Text

-- The statements of a node. Some nodes say something about the page or about the action around them
-- and have none of their own.
def nodeCode (x : Context) (body : BodyGen) (scope : Scope) (id : NodeId) : GenM Code :=
  let mark := x.tree.mark id
  match x.tree.kind id with
  | .root _ | .xmlRoot | .includeDirective | .body | .jspText => body scope id
  | .pageDirective | .taglibDirective | .comment _ | .param | .params | .fallback | .output
  | .named _ => return []
  | .script kind _ => scriptCode x kind id
  | .insert data => insertCode x mark data
  | .text run => if isDirectiveBlank x id then return [] else textCode x mark run
  | .useBean => useBeanCode x body scope id
  | .setProperty => setPropertyCode x body scope id
  | .getProperty => getPropertyCode x id
  | .forward => forwardCode x body scope id
  | .includeAction => includeCode x body scope id
  | .plugin => pluginCode x body scope id
  | .element => elementCode x body scope id
  | .custom data => customCode x body scope id data
  | .uninterpreted => markupCode x body scope id

-- The statements of a node and all below it. A tree is no deeper than it has nodes.
def subtreeCode (x : Context) : Nat → BodyGen
  | 0, _, _ => return []
  | fuel + 1, scope, id =>
    nodeCode x
      (fun scope id => do
        return (← (x.tree.children id).mapM (subtreeCode x fuel scope)).flatten)
      scope id

-- The service method: it returns to leave.
def serviceScope : Scope := { parent := none, leave := .returns, pushCount := Names.pushCount }

def pageCode (x : Context) : GenM Code := subtreeCode x (x.tree.size + 1) serviceScope Tree.root

def quotedList (items : List String) : String := join ", " (items.map quote)

def fieldLines (s : State) (imports dependencies : List String) : List Line :=
  let packages := imports.filterMap (withoutEnd? ".*")
  let arrays := ((List.range s.charArrays.length).zip s.charArrays).map fun (index, text) =>
    Line.plain (.declareArray index text)
  List.flatten
    [[.code ("private static final " ++ Names.pageFactory ++ " _pagex_factory = " ++
        Names.pageFactory ++ ".getDefaultFactory();"),
      .code ("private static final java.util.List<java.lang.String> _pagex_dependants = " ++
        "java.util.List.of(" ++ quotedList dependencies ++ ");"),
      .code ("private static final java.util.Set<java.lang.String> _pagex_imports = " ++
        "java.util.Set.of(" ++ quotedList packages ++ ");")],
      s.functionMaps.declarations, arrays]

-- The pools in the order of their names.
def poolNames (s : State) : List String := s.pools.mergeSort fun a b => decide (a ≤ b)

def poolFields (pools : List String) : List Line :=
  if pools.isEmpty then []
  else .blank :: pools.map fun pool => .plain (.declarePool pool)

def method (head : String) (lines : List Line) : List Line :=
  .blank :: .block head :: lines ++ [.close]

def infoMethod : Option String → List Line
  | some info =>
    method "public java.lang.String getServletInfo()" [.code ("return " ++ quote info ++ ";")]
  | none => []

def methodLines (settings : Settings) (pools : List String) : List Line :=
  List.flatten
    [method "public java.util.List<java.lang.String> getDependants()"
        [.code "return _pagex_dependants;"],
      method "public java.util.Set<java.lang.String> getPackageImports()"
        [.code "return _pagex_imports;"],
      infoMethod settings.info,
      method "public void pageInit()" (pools.map fun pool => .plain (.initPool pool)),
      method "public void pageDestroy()" (pools.map fun pool => .plain (.releasePool pool))]

def isStrictPage (t : Tree) : Bool := (t.kind Tree.root).root?.any fun data => data.form == .strict

def charset (x : Context) : String := x.settings.pageEncoding.getD x.options.defaultEncoding

-- The content type of the response always names a character encoding.
def contentType (x : Context) : String :=
  let base := x.settings.contentType.getD (if isStrictPage x.tree then "text/xml" else "text/html")
  if contains "charset=" base then base else base ++ ";charset=" ++ charset x

def isOutput : NodeKind → Bool
  | .output => true
  | _ => false

def isXmlRoot : NodeKind → Bool
  | .xmlRoot => true
  | _ => false

-- The output element of the outermost unit.
def outputElement? (t : Tree) : Option Node :=
  (t.preorder.find? fun id => t.unitRoot id == Tree.root && isOutput (t.kind id)).map t.node

def documentType (n : Node) : String :=
  match n.value? "doctype-root-element", n.value? "doctype-system" with
  | some element, some system =>
    match n.value? "doctype-public" with
    | some name =>
      "<!DOCTYPE " ++ element ++ " PUBLIC \"" ++ name ++ "\" \"" ++ system ++ "\">\n"
    | none => "<!DOCTYPE " ++ element ++ " SYSTEM \"" ++ system ++ "\">\n"
  | _, _ => ""

-- What a page in strict form writes in front of its content: the XML declaration, unless it is left
-- out, and the document type. The declaration is left out by default if there is a root element.
def xmlProlog (x : Context) : String :=
  if isStrictPage x.tree then
    let output := outputElement? x.tree
    let omits :=
      match output.bind fun n => n.value? "omit-xml-declaration" with
      | some value => value == "true" || value == "yes"
      | none => (x.tree.children Tree.root).any fun c => isXmlRoot (x.tree.kind c)
    let declaration :=
      if omits then "" else "<?xml version=\"1.0\" encoding=\"" ++ charset x ++ "\"?>\n"
    declaration ++ (output.map documentType).getD ""
  else ""

def boolText (b : Bool) : String := if b then "true" else "false"

-- What an error page does first.
def errorLines : List Line :=
  [.code "java.lang.Throwable exception = org.pagec.runtime.PageRuntime.getThrowable(request);",
    .block "if (exception != null)",
    .code ("response.setStatus(" ++
      "jakarta.servlet.http.HttpServletResponse.SC_INTERNAL_SERVER_ERROR);"),
    .close]

-- The page context is made with the settings of the page.
def contextLine (s : Settings) : Line :=
  .code (Names.context ++ " = _pagex_factory.getPageContext(this, request, response, " ++
    (s.errorPage.map quote).getD "null" ++ ", " ++ boolText s.session ++ ", " ++
    toString s.bufferSize ++ ", " ++ boolText s.autoFlush ++ ");")

def serviceStart (x : Context) : List Line :=
  let s := x.settings
  let context := Names.context
  let prolog := xmlProlog x
  List.flatten
    [[.blank,
      .block ("public void pageService(final jakarta.servlet.http.HttpServletRequest request, " ++
        "final jakarta.servlet.http.HttpServletResponse response) " ++
        "throws java.io.IOException, jakarta.servlet.ServletException")],
      onlyIf s.isErrorPage errorLines, [.code (Names.pageContext ++ " " ++ context ++ " = null;")],
      onlyIf s.session [.code "jakarta.servlet.http.HttpSession session = null;"],
      [.code "jakarta.servlet.ServletContext application = null;",
        .code "jakarta.servlet.ServletConfig config = null;",
        .code (Names.writer ++ " out = null;"), .code "final java.lang.Object page = this;",
        .code ("int[] " ++ Names.pushCount ++ " = new int[] \x7b 0 \x7d;"), .blank, .block "try",
        .code ("response.setContentType(" ++ quote (contentType x) ++ ");"), contextLine s,
        .code ("application = " ++ context ++ ".getServletContext();"),
        .code ("config = " ++ context ++ ".getServletConfig();")],
      onlyIf s.session [.code ("session = " ++ context ++ ".getSession();")],
      [.code ("out = " ++ context ++ ".getOut();")],
      onlyIf (!prolog.isEmpty) [.code ("out.write(" ++ quote prolog ++ ");")], [.blank]]

def serviceEnd : List Line :=
  [.turns "catch (java.lang.Throwable t)", .block ("if (!(t instanceof " ++ Names.skipPage ++ "))"),
    .code "out = _pagex_page_context != null ? _pagex_page_context.getOut() : out;",
    .block "if (out != null && out.getBufferSize() != 0)", .block "try",
    .block "if (response.isCommitted())", .code "out.flush();", .turns "else",
    .code "out.clearBuffer();", .close, .turns "catch (java.io.IOException e)", .close, .close,
    .block ("if (" ++ Names.context ++ " != null)"),
    .code (Names.context ++ ".handlePageException(t);"), .turns "else",
    .code "throw new jakarta.servlet.ServletException(t);", .close, .close, .turns "finally",
    .code ("_pagex_factory.releasePageContext(" ++ Names.context ++ ");"), .close, .close]

def helperStart : List Line :=
  [.blank, .block ("private class " ++ Names.helper ++ " extends " ++ Names.fragmentHelper),
    .code ("private final " ++ Names.anyTag ++ " " ++ Names.parent ++ ";"),
    .code ("private final int[] " ++ Names.pushCount ++ ";"), .blank,
    .block ("public " ++ Names.helper ++ "(int discriminator, " ++ Names.anyContext ++
      " jspContext, " ++ Names.anyTag ++ " " ++ Names.parent ++ ", int[] " ++ Names.pushCount ++
      ")"),
    .code ("super(discriminator, jspContext, " ++ Names.parent ++ ");"),
    .code ("this." ++ Names.parent ++ " = " ++ Names.parent ++ ";"),
    .code ("this." ++ Names.pushCount ++ " = " ++ Names.pushCount ++ ";"), .close]

def deferredSections (number : Nat) (code : Option Code) : List Section :=
  [.own
      [.blank, .opens (.deferred number),
        .code (Names.pageContext ++ " " ++ Names.context ++ " = (" ++ Names.pageContext ++
          ") this.jspContext;")],
    .code 3 (code.getD []), .own [.code "return false;", .close]]

def caseLines (number : Nat) : List Line :=
  [.plain (.caseLabel number), .inner ("invoke" ++ toString number ++ "(out);"),
    .inner "break;"]

def helperEnd (count : Nat) : List Line :=
  List.flatten
    [[.blank, .block ("public void invoke(java.io.Writer writer) throws " ++ Names.pageException),
      .code (Names.writer ++ " out = null;"), .block "if (writer != null)",
      .code "out = this.jspContext.pushBody(writer);", .turns "else",
      .code "out = this.jspContext.getOut();", .close, .block "try",
      .block "switch (this.discriminator)"],
      (List.range count).flatMap caseLines,
      [.close, .turns "catch (java.lang.Throwable e)",
        .block ("if (e instanceof " ++ Names.skipPage ++ ")"),
        .code ("throw (" ++ Names.skipPage ++ ") e;"), .close,
        .code ("throw new " ++ Names.pageException ++ "(e);"), .turns "finally",
        .block "if (writer != null)", .code "this.jspContext.popBody();", .close, .close, .close,
        .close]]

-- The class that runs deferred bodies by their numbers; there is none without such bodies.
def helperSections (deferred : List (Option Code)) : List Section :=
  if deferred.isEmpty then []
  else
    .own helperStart ::
      (((List.range deferred.length).zip deferred).flatMap fun (n, code) =>
        deferredSections n code) ++
      [.own (helperEnd deferred.length)]

def classHead (settings : Settings) (name : String) : Line :=
  let interfaces := Names.pageDependent ++
    if settings.threadSafe then "" else ", jakarta.servlet.SingleThreadModel"
  .block ("public final class " ++ name ++ " extends " ++ settings.superclass.getD Names.pageBase ++
    " implements " ++ interfaces)

def allImports (settings : Settings) : List String :=
  settings.imports.foldl (fun all i => if all.contains i then all else all ++ [i]) Names.imports

-- The lines down to the fields.
def headLines (x : Context) (package name : String) (s : State) : List Line :=
  let imports := allImports x.settings
  List.flatten
    [[.code ("package " ++ package ++ ";"), .blank],
      imports.map fun i => .code ("import " ++ i ++ ";"), [.blank, classHead x.settings name],
      fieldLines s imports x.checked.page.bindings.dependencies, poolFields (poolNames s)]

def declarationSections (declarations : Code) : List Section :=
  if declarations.isEmpty then [] else [.own [.blank], .code 1 declarations]

def sections (x : Context) (package name : String) (body : Code) (s : State) : List Section :=
  List.flatten
    [[.own (headLines x package name s)], declarationSections s.declarations,
      [.own (methodLines x.settings (poolNames s)), .own (serviceStart x), .code 3 body,
        .own serviceEnd],
      s.methods.map (.code 1), helperSections s.deferred, [.own [.close]]]

end PageCompiler.ClassText

namespace PageCompiler

structure CompiledPage where
  package : String
  className : String
  source : String
  lineMap : LineMap
  dependencies : List String
  imports : List String
  deriving Repr, Inhabited

namespace CompiledPage

def qualifiedName (c : CompiledPage) : String := c.package ++ "." ++ c.className

def smap (c : CompiledPage) : String := c.lineMap.smap (c.className ++ ".java") "PAGE"

end CompiledPage

open ClassText in
-- The class of a page that has passed all checks.
def CheckedPage.generate (c : CheckedPage) (o : Options) : Except Diagnostic CompiledPage := do
  let x : ClassText.Context := { options := o, checked := c }
  let unit := ((x.tree.kind Tree.root).root?.map UnitRoot.unit).getD ""
  let (package, name) := classOfUnit o.package unit
  let (body, s) ← (pageCode x).run {}
  let (source, lineMap) := assemble (sections x package name body s)
  return { package, className := name, source, lineMap
           dependencies := c.page.bindings.dependencies, imports := allImports c.settings }

end PageCompiler
