import Logo.Vocabulary.Classifier

/-!
# Instruction words of the natural languages

Each table gives, for every instruction of the language, the words a program may
use for it.  The order is that in which the words are tried.
-/

namespace Logo.Vocabulary

def english : RuleSet := [
  ("Forward", "forward|fd"), ("Backward", "back|bk|backward"),
  ("Left", "left|lt"), ("Right", "right|rt"),
  ("SetHeading", "setheading|seth"), ("SetTowards", "towards"),
  ("SetPosition", "setxy|goto"), ("PenDown", "pendown|pd"),
  ("PenUp", "penup|pu"), ("ShowTurtle", "showturtle|st"),
  ("HideTurtle", "hideturtle|ht"), ("Home", "home"),
  ("ClearScreen", "clearscreen|cs"), ("XCoordinate", "xcoordinate|xcor"),
  ("YCoordinate", "ycoordinate|ycor"), ("Heading", "heading"),
  ("IsPenDown", "pendown\\?|pendownp"), ("IsShowing", "showing\\?|showingp"),
  ("Sum", "sum|\\+"), ("Difference", "difference|-"),
  ("Product", "product|\\*"), ("Quotient", "quotient|/"),
  ("Remainder", "remainder|%"), ("Minus", "minus|~"), ("Random", "random"),
  ("Sine", "sine|sin"), ("Cosine", "cosine|cos"), ("Tangent", "tangent|tan"),
  ("ArcTangent", "arctangent|atan"), ("NaturalLog", "log"),
  ("Power", "power|pow"), ("Pi", "pi"),
  ("LessThan", "lessthan\\?|less\\?|lessp"),
  ("GreaterThan", "greaterthan\\?|greater\\?|greaterp"),
  ("Equal", "equal\\?|equalp"), ("NotEqual", "notequal\\?|notequalp"),
  ("And", "and"), ("Or", "or"), ("Not", "not"), ("MakeVariable", "make|set"),
  ("Repeat", "repeat"), ("DoTimes", "dotimes"), ("For", "for"), ("If", "if"),
  ("IfElse", "ifelse"), ("MakeUserInstruction", "to"),
  ("SetBackground", "setbackground|setbg"),
  ("SetPenColor", "setpencolor|setpc"), ("SetPenSize", "setpensize|setps"),
  ("SetShape", "setshape|setsh"), ("SetPalette", "setpalette"),
  ("GetPenColor", "pencolor|pc"), ("GetShape", "shape|sh"), ("Stamp", "stamp"),
  ("ClearStamps", "clearstamps"), ("ID", "id"), ("Turtles", "turtles"),
  ("Tell", "tell"), ("Ask", "ask"), ("AskWith", "askwith")]

def french : RuleSet := [
  ("Forward", "avance|av"), ("Backward", "recule|re"), ("Left", "gauche|tg"),
  ("Right", "droite|td"), ("SetHeading", "fixecap|fcap"),
  ("SetTowards", "vers"), ("SetPosition", "fixepos|fpos"),
  ("PenDown", "baissecrayon|bc"), ("PenUp", "levecrayon|lc"),
  ("ShowTurtle", "montretortue|mt"), ("HideTurtle", "cachetortue|ct"),
  ("Home", "origine"), ("ClearScreen", "videecran|ve"),
  ("XCoordinate", "posx"), ("YCoordinate", "posy"), ("Heading", "cap"),
  ("IsPenDown", "baisse\\?"), ("IsShowing", "visible\\?"),
  ("Sum", "somme|\\+"), ("Difference", "difference|-"),
  ("Product", "produit|\\*"), ("Quotient", "quotient|/"),
  ("Remainder", "reste|%"), ("Minus", "moins|~"), ("Random", "hasard"),
  ("Sine", "sinus|sin"), ("Cosine", "cosinus|cos"),
  ("Tangent", "tangente|tan"), ("ArcTangent", "arctangente|atan"),
  ("NaturalLog", "ln"), ("Power", "puissance"), ("Pi", "pi"),
  ("LessThan", "inferieur\\?|inf\\?"), ("GreaterThan", "superieur\\?|sup\\?"),
  ("Equal", "egal\\?"), ("NotEqual", "different\\?"), ("And", "et"),
  ("Or", "ou"), ("Not", "non"), ("MakeVariable", "donne|fixe"),
  ("Repeat", "repete"), ("DoTimes", "pourchaque"), ("For", "pour"),
  ("If", "si"), ("IfElse", "sisinon"), ("MakeUserInstruction", "procedure"),
  ("SetBackground", "fixecouleurfond|fcfond"),
  ("SetPenColor", "fixecouleurcrayon|fcc"),
  ("SetPenSize", "fixetaillecrayon|ftc"), ("SetShape", "fixeforme|ff"),
  ("SetPalette", "fixepalette"), ("GetPenColor", "couleurcrayon|cc"),
  ("GetShape", "forme"), ("Stamp", "tampon"), ("ClearStamps", "videtampons"),
  ("ID", "numero"), ("Turtles", "tortues"), ("Tell", "dis"),
  ("Ask", "demande"), ("AskWith", "demandesi")]

end Logo.Vocabulary
