import Road7.Config
import Road7.Http

namespace Road7

/-- `HeaderValue::from_str(s)`, or the empty value where that fails. -/
def headerValueOrEmpty (s : Str) : HeaderValue := (headerFromStr s).getD []

/-- One round of the loop of `apply_header_transforms`. -/
def applyHeaderTransform (headers : HeaderMap) (t : Transform) : HeaderMap :=
  match parseHeaderName t.name with
  | none => headers
  | some name =>
    let value := t.value.getD []
    if t.operation = "Set".toList then headers.insert name (headerValueOrEmpty value)
    else if t.operation = "Remove".toList then headers.remove name
    else if t.operation = "Append".toList then
      let newValue := match (headers.get name).bind headerToStr with
        | some current => current ++ value
        | none => value
      headers.insert name (headerValueOrEmpty newValue)
    else headers

def applyHeaderTransforms (headers : HeaderMap) (transforms : List Transform) : HeaderMap :=
  transforms.foldl applyHeaderTransform headers

def Request.applyTransforms (req : Request) (transforms : Option (List Transform)) : Request :=
  { req with headers := applyHeaderTransforms req.headers (transforms.getD []) }

def Response.applyTransforms (resp : Response) (transforms : Option (List Transform)) :
    Response :=
  { resp with headers := applyHeaderTransforms resp.headers (transforms.getD []) }

@[simp] theorem Request.applyTransforms_uri (req : Request)
    (transforms : Option (List Transform)) : (req.applyTransforms transforms).uri = req.uri := rfl

@[simp] theorem Request.applyTransforms_body (req : Request)
    (transforms : Option (List Transform)) :
    (req.applyTransforms transforms).body = req.body := rfl

@[simp] theorem Response.applyTransforms_status (resp : Response)
    (transforms : Option (List Transform)) :
    (resp.applyTransforms transforms).status = resp.status := rfl

end Road7
