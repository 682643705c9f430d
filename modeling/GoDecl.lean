import GoDecl.Fragment.Comment
import GoDecl.Fragment.Imports
import GoDecl.Fragment.Text
import GoDecl.Json.Declaration
import GoDecl.Logged
import GoDecl.Token.Equality
import GoDecl.Proofs.ByteOrder
import GoDecl.Proofs.Characters
import GoDecl.Proofs.Comments
import GoDecl.Proofs.Conditions
import GoDecl.Proofs.DeclaredTypes
import GoDecl.Proofs.Defects
import GoDecl.Proofs.Determinacy
import GoDecl.Proofs.Erasure
import GoDecl.Proofs.Events
import GoDecl.Proofs.Gathering
import GoDecl.Proofs.Grammar
import GoDecl.Proofs.Hidden
import GoDecl.Proofs.ImportPath
import GoDecl.Proofs.Imports
import GoDecl.Proofs.Induction
import GoDecl.Proofs.Json.Format
import GoDecl.Proofs.Json.RoundTrip
import GoDecl.Proofs.Lexeme
import GoDecl.Proofs.Lookup
import GoDecl.Proofs.Methods
import GoDecl.Proofs.Offenders
import GoDecl.Proofs.PackageName
import GoDecl.Proofs.Productions
import GoDecl.Proofs.Qualifiers
import GoDecl.Proofs.References
import GoDecl.Proofs.Rendering
import GoDecl.Proofs.RoundTrip
import GoDecl.Proofs.Scanning
import GoDecl.Proofs.Seams
import GoDecl.Proofs.Source
import GoDecl.Proofs.TypeParams
import GoDecl.Proofs.Variadic
import GoDecl.Proofs.Walk
