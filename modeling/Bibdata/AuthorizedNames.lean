import Mathlib.Data.List.Defs

/-!
# Authorized names

The departments and programs of a thesis as Dataspace names them, each with its authorized name.
-/

namespace Bibdata

def departments : List (String × String) :=
  [("African American Studies", "Princeton University. Department of African American Studies"),
    ("Art and Archaeology", "Princeton University. Department of Art and Archaeology"),
    ("Aeronautical Engineering", "Princeton University. Department of Aeronautical Engineering"),
    ("Anthropology", "Princeton University. Department of Anthropology"),
    ("Architecture School", "Princeton University. School of Architecture"),
    ("Astrophysical Sciences", "Princeton University. Department of Astrophysical Sciences"),
    ("Biochemical Sciences", "Princeton University. Department of Biochemical Sciences"),
    ("Biology", "Princeton University. Department of Biology"),
    ("Civil and Environmental Engineering",
      "Princeton University. Department of Civil and Environmental Engineering"),
    ("Civil Engineering and Operations Research",
      "Princeton University. Department of Civil Engineering and Operations Research"),
    ("Chemical and Biological Engineering",
      "Princeton University. Department of Chemical and Biological Engineering"),
    ("Chemistry", "Princeton University. Department of Chemistry"),
    ("Classics", "Princeton University. Department of Classics"),
    ("Comparative Literature", "Princeton University. Department of Comparative Literature"),
    ("Computer Science", "Princeton University. Department of Computer Science"),
    ("East Asian Studies", "Princeton University. Department of East Asian Studies"),
    ("Economics", "Princeton University. Department of Economics"),
    ("Ecology and Evolutionary Biology",
      "Princeton University. Department of Ecology and Evolutionary Biology"),
    ("Electrical Engineering", "Princeton University. Department of Electrical Engineering"),
    ("Engineering and Applied Science",
      "Princeton University. School of Engineering and Applied Science"),
    ("English", "Princeton University. Department of English"),
    ("French and Italian", "Princeton University. Department of French and Italian"),
    ("Geosciences", "Princeton University. Department of Geosciences"),
    ("German", "Princeton University. Department of Germanic Languages and Literatures"),
    ("History", "Princeton University. Department of History"),
    ("Special Program in Humanities", "Princeton University. Special Program in the Humanities"),
    ("Independent Concentration", "Princeton University Independent Concentration Program"),
    ("Mathematics", "Princeton University. Department of Mathematics"),
    ("Molecular Biology", "Princeton University. Department of Molecular Biology"),
    ("Mechanical and Aerospace Engineering",
      "Princeton University. Department of Mechanical and Aerospace Engineering"),
    ("Medieval Studies", "Princeton University. Program in Medieval Studies"),
    ("Modern Languages", "Princeton University. Department of Modern Languages."),
    ("Music", "Princeton University. Department of Music"),
    ("Near Eastern Studies", "Princeton University. Department of Near Eastern Studies"),
    ("Neuroscience", "Princeton Neuroscience Institute"),
    ("Operations Research and Financial Engineering",
      "Princeton University. Department of Operations Research and Financial Engineering"),
    ("Oriental Studies", "Princeton University. Department of Oriental Studies"),
    ("Philosophy", "Princeton University. Department of Philosophy"),
    ("Physics", "Princeton University. Department of Physics"),
    ("Politics", "Princeton University. Department of Politics"),
    ("Psychology", "Princeton University. Department of Psychology"),
    ("Religion", "Princeton University. Department of Religion"),
    ("Romance Languages and Literatures",
      "Princeton University. Department of Romance Languages and Literatures"),
    ("Slavic Languages and Literature",
      "Princeton University. Department of Slavic Languages and Literatures"),
    ("Sociology", "Princeton University. Department of Sociology"),
    ("Spanish and Portuguese",
      "Princeton University. Department of Spanish and Portuguese Languages and Cultures"),
    ("Spanish and Portuguese Languages and Cultures",
      "Princeton University. Department of Spanish and Portuguese Languages and Cultures"),
    ("Statistics", "Princeton University. Department of Statistics"),
    ("School of Public and International Affairs",
      "Princeton University. School of Public and International Affairs"),
    ("Public & International Affairs",
      "Princeton University. School of Public and International Affairs"),
    ("Art & Archaeology", "Princeton University. Department of Art and Archaeology"),
    ("Civil & Environmental Engr",
      "Princeton University. Department of Civil and Environmental Engineering"),
    ("Mechanical & Aerospace Engr",
      "Princeton University. Department of Mechanical and Aerospace Engineering"),
    ("Chemical and Biological Engr",
      "Princeton University. Department of Chemical and Biological Engineering"),
    ("Architecture", "Princeton University. School of Architecture"),
    ("Ops Research & Financial Engr",
      "Princeton University. Department of Operations Research and Financial Engineering"),
    ("Electrical & Computer Engr", "Princeton University. Department of Electrical Engineering"),
    ("Creative Writing Program", "Princeton University. Creative Writing Program"),
    ("Ecology & Evolutionary Biology",
      "Princeton University. Department of Ecology and Evolutionary Biology"),
    ("Independent Study-Linguistics", "Princeton University Independent Concentration Program")]

def mapDepartment (original : String) : Option String := departments.lookup original

def programs : List (String × String) :=
  [("African American Studies Program",
      "Princeton University. Program in African-American Studies"),
    ("African Studies Program", "Princeton University. Program in African Studies"),
    ("American Studies Program", "Princeton University. Program in American Studies"),
    ("Applications of Computing Program",
      "Princeton University. Program in Applications of Computing"),
    ("Architecture and Engineering Program",
      "Princeton University. Program in Architecture and Engineering"),
    ("Center for Statistics and Machine Learning",
      "Princeton University. Center for Statistics and Machine Learning"),
    ("Creative Writing Program", "Princeton University. Creative Writing Program"),
    ("East Asian Studies Program", "Princeton University. Program in East Asian Studies"),
    ("Engineering Biology Program", "Princeton University. Program in Engineering Biology"),
    ("Engineering and Management Systems Program",
      "Princeton University. Program in Engineering and Management Systems"),
    ("Environmental Studies Program", "Princeton University. Program in Environmental Studies"),
    ("Ethnographic Studies Program", "Princeton University. Program in Ethnographic Studies"),
    ("European Cultural Studies Program",
      "Princeton University. Program in European Cultural Studies"),
    ("Finance Program", "Princeton University. Program in Finance"),
    ("Geological Engineering Program", "Princeton University. Program in Geological Engineering"),
    ("Global Health and Health Policy Program",
      "Princeton University. Program in Global Health and Health Policy"),
    ("Hellenic Studies Program", "Princeton University. Program in Hellenic Studies"),
    ("Humanities Council and Humanistic Studies Program",
      "Princeton University. Program in Humanistic Studies"),
    ("Judaic Studies Program", "Princeton University. Program in Judaic Studies"),
    ("Latin American Studies Program", "Princeton University. Program in Latin American Studies"),
    ("Latino Studies Program", "Princeton University. Program in Latino Studies"),
    ("Linguistics Program", "Princeton University. Program in Linguistics"),
    ("Materials Science and Engineering Program",
      "Princeton University. Program in Materials Science and Engineering"),
    ("Medieval Studies Program", "Princeton University. Program in Medieval Studies"),
    ("Near Eastern Studies Program", "Princeton University. Program in Near Eastern Studies"),
    ("Neuroscience Program", "Princeton University. Program in Neuroscience"),
    ("Program in Cognitive Science", "Princeton University. Program in Cognitive Science"),
    ("Program in Entrepreneurship", "Princeton University. Program in Entrepreneurship"),
    ("Program in Gender and Sexuality Studies",
      "Princeton University. Program in Gender and Sexuality Studies"),
    ("Program in Music Theater", "Princeton University. Program in Music Theater"),
    ("Program in Technology & Society, Technology Track",
      "Princeton University. Program in Technology and Society"),
    ("Program in Values and Public Life",
      "Princeton University. Program in Values and Public Life"),
    ("Quantitative and Computational Biology Program",
      "Princeton University. Program in Quantitative and Computational Biology"),
    ("Robotics & Intelligent Systems Program",
      "Princeton University. Program in Robotics and Intelligent Systems"),
    ("Russian & Eurasian Studies Program",
      "Princeton University. Program in Russian, East European and Eurasian Studies"),
    ("South Asian Studies Program", "Princeton University. Program in South Asian Studies"),
    ("Theater", "Princeton University. Program in Theater"),
    ("Theater Program", "Princeton University. Program in Theater"),
    ("Sustainable Energy Program", "Princeton University. Program in Sustainable Energy"),
    ("Urban Studies Program", "Princeton University. Program in Urban Studies")]

def mapProgram (original : String) : Option String := programs.lookup original

end Bibdata
