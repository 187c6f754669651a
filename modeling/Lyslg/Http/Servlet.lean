import Lyslg.Http.Request
/-!
# Servlets

`ServletDispatch` and the cast of `WSServletDispatch::getWSServlet`.  `fnmatch` of the C library
is a parameter: whether it returns 0 for a pattern and a path, both up to their first NUL.
-/

namespace Lyslg.Http

/-- What the cast tells apart of a servlet: the WebSocket servlets, of which there is one for
each `ω`, and the others, such as `NotFoundServlet`. -/
inductive Servlet (ω : Type) where
  | webSocket (servlet : ω)
  | other
  deriving DecidableEq, Repr

/-- `std::dynamic_pointer_cast<WSServlet>`; none is a null pointer. -/
def Servlet.asWSServlet {ω : Type} : Option (Servlet ω) → Option ω
  | some (.webSocket servlet) => some servlet
  | _ => none

/-- `ServletDispatch`: `m_datas` in some order, `m_globs` in their order, and `m_default`.  A
servlet is a `σ`, and none is a null pointer. -/
structure ServletDispatch (σ : Type) where
  datas : List (List UInt8 × Option σ)
  globs : List (List UInt8 × Option σ)
  dflt : Option σ

namespace ServletDispatch

variable {σ : Type}

/-- `ServletDispatch::ServletDispatch`, with the `NotFoundServlet` it makes. -/
def new (notFound : σ) : ServletDispatch σ where
  datas := []
  globs := []
  dflt := some notFound

/-- `ServletDispatch::addServlet`.  The overload for a callback makes its servlet of it. -/
def addServlet (d : ServletDispatch σ) (uri : List UInt8) (slt : Option σ) : ServletDispatch σ :=
  { d with datas := (uri, slt) :: d.datas.filter fun entry => entry.1 ≠ uri }

/-- `ServletDispatch::addGlobServlet`.  The loop erases the first entry of the pattern. -/
def addGlobServlet (d : ServletDispatch σ) (uri : List UInt8) (slt : Option σ) :
    ServletDispatch σ :=
  { d with globs := (d.globs.eraseP fun entry => entry.1 = uri) ++ [(uri, slt)] }

/-- `ServletDispatch::delServlet`. -/
def delServlet (d : ServletDispatch σ) (uri : List UInt8) : ServletDispatch σ :=
  { d with datas := d.datas.filter fun entry => entry.1 ≠ uri }

/-- `ServletDispatch::delGlobServlet`. -/
def delGlobServlet (d : ServletDispatch σ) (uri : List UInt8) : ServletDispatch σ :=
  { d with globs := d.globs.eraseP fun entry => entry.1 = uri }

/-- `ServletDispatch::getGlobServlet`. -/
def getGlobServlet (d : ServletDispatch σ) (uri : List UInt8) : Option σ :=
  match d.globs.find? fun entry => entry.1 = uri with
  | some entry => entry.2
  | none => none

/-- `ServletDispatch::getMatchedServlet`. -/
def getMatchedServlet (fnmatch : List UInt8 → List UInt8 → Bool) (d : ServletDispatch σ)
    (uri : List UInt8) : Option σ :=
  match d.datas.find? fun entry => entry.1 = uri with
  | some entry => entry.2
  | none =>
      match d.globs.find? fun entry => fnmatch (cStr entry.1) (cStr uri) with
      | some entry => entry.2
      | none => d.dflt

/-- `WSServletDispatch::getWSServlet`. -/
def getWSServlet {ω : Type} (fnmatch : List UInt8 → List UInt8 → Bool)
    (d : ServletDispatch (Servlet ω)) (uri : List UInt8) : Option ω :=
  Servlet.asWSServlet (d.getMatchedServlet fnmatch uri)

end ServletDispatch

end Lyslg.Http
